import ProcessMessagePassing.Kernel.Ownership
import ProcessMessagePassing.Kernel.Reuse

/-! How long a mailbox lives. The exit hook counts the threads of the process that are left, and
`is_process_valid` looks at its leader alone. -/
namespace ProcessMessagePassing
open Concurrency HashTable

/-- The task is in user mode or in a message call. -/
def Pc.running : Pc → Bool
  | .user _ => true
  | c => c.inCall

namespace System
variable {hash32 : Pid → ℕ} {sig : Actor → Bool} {s s' : System} {act : Action}
  {tr : List (System × Action)} {m n : ℕ} {x : MessagePtr} {p q g : Pid}

/-- A thread of the process is running. -/
def Running (s : System) (g : Pid) : Prop :=
  ∃ q, s.processes.group q = some g ∧ (s.pc q).running = true

/-- A receive has taken the message off the mailbox. -/
def TakenOff (tr : List (System × Action)) (m : ℕ) (x : MessagePtr) : Prop :=
  ∃ y ∈ tr, y.1.outcome y.2 = some (m,.returned (.message (.node x)))

/-- What is left of `get_mailbox_for_pid`, run alone, hands out a mailbox of the process with the
messages that it has. -/
def GetSucceeds (hash32 : Pid → ℕ) (s : System) (g : Pid) : Prop :=
  ∀ p c o, s.pc p = .validate g c → s.tableLock = none → o.alloc = true →
    ∃ tr' s' m, Run (step hash32) s tr' s' ∧ (∀ y ∈ tr', y.2 = .run p o) ∧ s'.pc p = c.begin m ∧
      s'.tableLock = none ∧ s'.get hash32 g = some m ∧
      (s'.mailboxes m).messages = (s.mailboxes m).messages

/-- The process can get its mailbox, every mailbox that it has had in its lifetime is still its
mailbox and runs, and every message that was queued for it is there or has been received. -/
structure MailboxLives (hash32 : Pid → ℕ) (tr : List (System × Action)) (s : System) (g : Pid) :
    Prop where
  valid : s.processes.isProcessValid g = true
  gets : GetSucceeds hash32 s g
  runs : ∀ m, s.get hash32 g = some m → (s.mailboxes m).stopped = 0 ∧ (s.mailboxes m).frees = 0
  kept : ∀ y ∈ tr, y.1.processes.births g = s.processes.births g → ∀ m,
    y.1.get hash32 g = some m → s.get hash32 g = some m
  queued : ∀ m x, SentTo tr s m g x → s.get hash32 g = some m ∧
    (x ∈ (s.mailboxes m).messages ∨ TakenOff tr m x)

/-- The deletion thread is going to unlink a mailbox of the process. -/
def Unlinks (s : System) (g : Pid) (d : DeletionThread) : Prop :=
  match d.pc with
  | .start => s.owner d.mailbox = g
  | .waitExit pid => pid = g
  | .unlink pid => pid = g
  | _ => False

/-- No removal of a mailbox of the process is under way, and its mailboxes in the table are the
ones that run. -/
structure Unremoved (s : System) (g : Pid) : Prop where
  removals : ∀ q, s.processes.group q = some g →
    (∀ group, s.pc q ≠ .removeLookup group) ∧ ∀ m, ¬ (s.pc q).RemovesMailbox m
  deletions : ∀ k d, s.deletions k = some d → ¬ s.Unlinks g d
  linked : ∀ m, m < s.mailboxesCreated → s.owner m = g →
    (s.table.Linked m ↔ (s.mailboxes m).stopped = 0)

/-- Nobody in the process calls `exit_group` or stops its mailbox, and no deletion thread takes its
pid from the remains of another mailbox. -/
structure Calm (g : Pid) (s : System) (act : Action) : Prop where
  exitGroup : ∀ q, act = .exitGroup q → s.processes.tgid q ≠ g
  stop : ∀ a m, s.running act = some (a,m,.stop stoppedFlag) → s.owner m ≠ g
  stale : ∀ k o m, act = .runDeletion k o → s.deletions k = some ⟨m,.start⟩ →
    (s.mailboxes m).frees ≠ 0 → o.staleOwner ≠ g

/-- The steps of the present lifetime of the process are calm, and when it was started no removal
of an earlier process with its pid was under way. -/
structure CalmLife (g : Pid) (tr : List (System × Action)) (s : System) : Prop where
  calm : ∀ y ∈ tr, y.1.processes.births g = s.processes.births g → Calm g y.1 y.2
  started : ∀ y ∈ tr, ∀ uid, y.2 = .newProcess g uid → y.1.Unremoved g

lemma running_present {c : Pc} (h : c.running = true) : c ≠ .absent ∧ c ≠ .zombie := by
  constructor <;> rintro rfl <;> cases h

lemma running_exits {c : Pc} (h : c.exits = true) : c.running = false := by
  cases c with
  | user | onMailbox | validate | lookup | checkExiting | createMessage | copyCount | copyToUser
  | destroyMessage => cases h
  | _ => rfl

lemma live_of_running {c : Pc} (h : c.running = true) : c.live = true := by
  cases c with
  | absent | die | zombie => cases h
  | _ => rfl

/-- A thread that runs did so before, or it has just been started. -/
lemma running_cases (h : Stepped hash32 s act s') (hq : (s'.pc q).running = true) :
    (s.pc q).running = true ∨ s.pc q = .absent ∧ s'.pc q = .user none := by
  cases h.taskStep q with
  | rests moves pc => exact .inl (pc ▸ hq)
  | arrives pc next => exact .inr ⟨pc,next⟩
  | leaves pc next =>
    rw [next] at hq
    cases hq
  | ends pc next exits =>
    rw [next,running_exits exits] at hq
    cases hq
  | exiting pc next old new =>
    rw [next,running_exits new] at hq
    cases hq
  | removalFound action pc found next =>
    rw [next] at hq
    cases hq
  | enters action pc next | valid action pc valid next | invalid action pc next
  | found action pc found next | created action pc missing memory owner next
  | outOfMemory action pc next | refused action pc exiting next | granted action pc alive next
  | messageCreated action pc made next | messageFailed action pc failed next
  | countFault action pc fault next | countCopied action pc writable next
  | copied action pc writable next | copyFault action pc fault next
  | destroyed action pc messages next =>
    left
    rw [pc]
    rfl
  | @stays o m cs k pr cs' action pc locked stays next =>
    left
    rw [next] at hq
    rw [pc]
    cases k <;> exact hq
  | @returned o m cs k r action pc locked next =>
    left
    rw [next] at hq
    rw [pc]
    cases k with
    | hook group => cases hq
    | _ => rfl

/-- A process that runs did so before, or it has just been started. -/
lemma running_stepped (threads : ThreadInvariant s) (h : Stepped hash32 s act s')
    (running : s'.Running g) : s.Running g ∨ ∃ uid, act = .newProcess g uid := by
  obtain ⟨q,hgroup,hq⟩ := running
  rcases running_cases h hq with hold | ⟨habsent,hnew⟩
  · rw [threads.group_kept h (running_present hold).1 (running_present hold).2] at hgroup
    exact .inl ⟨q,hgroup,hold⟩
  · have hfree := (threads.present q).mp habsent
    cases h.processStep with
    | @started p uid action absent free processes pc =>
      rw [processes,Processes.group_newProcess] at hgroup
      by_cases hqp : q = p
      · subst q
        rw [Function.update_self] at hgroup
        cases hgroup
        exact .inr ⟨uid,action⟩
      · rw [Function.update_of_ne hqp,hfree] at hgroup
        cases hgroup
    | @cloned parent p last task action caller alive absent free processes pc =>
      rw [processes,Processes.group_clone] at hgroup
      by_cases hqp : q = p
      · subst q
        rw [Function.update_self] at hgroup
        refine .inl ⟨parent,(Processes.group_of_task alive).trans hgroup,?_⟩
        rw [caller]
        rfl
      · rw [Function.update_of_ne hqp,hfree] at hgroup
        cases hgroup
    | same processes live =>
      rw [processes,hfree] at hgroup
      cases hgroup
    | signalled action processes | decremented moves pc processes =>
      rw [processes] at hgroup
      exact absurd (hfree.symm.trans hgroup) nofun
    | @exits p group moves pc processes =>
      rw [processes,Processes.group_setExiting] at hgroup
      cases group <;> exact absurd (hfree.symm.trans hgroup) nofun
    | died moves pc processes =>
      rw [processes,Processes.group_die,hfree] at hgroup
      cases hgroup
    | @released p moves pc may processes =>
      rw [processes,Processes.group_release] at hgroup
      by_cases hqp : q = p
      · subst q
        rw [Function.update_self] at hgroup
        cases hgroup
      · rw [Function.update_of_ne hqp,hfree] at hgroup
        cases hgroup

/-- A task comes to `remove_mailbox_for_pid` as the last thread in its hook, or in `exit_group`. -/
lemma removeLookup_cases (h : Stepped hash32 s act s') {group : Bool}
    (hq : s'.pc q = .removeLookup group) : s.pc q = .removeLookup group ∨ act = .exitGroup q ∨
      s.pc q = .exitHook ∧ act.moves = some q ∧ s.processes.live (s.processes.tgid q) = 1 := by
  by_cases moves : act.moves = some q
  · cases h with
    | exitGroup => cases moves; exact .inr (.inl rfl)
    | lastThread pc last => cases moves; exact .inr (.inr ⟨pc,rfl,last⟩)
    | newProcess | clone | enter | exit | killed | reap | valid | invalid | found | outOfMemory
    | stays | refused | messageCreated | messageFailed | countFault | destroyed | otherThread
    | removalFound | removalMissing | deletionStarted | deletionFailed | realExit | decrementLive
    | die | copied | copyFault =>
      cases moves
      rw [setPc_self] at hq
      cases hq
    | created =>
      cases moves
      rw [createMailbox,setPc_self] at hq
      cases hq
    | @granted p o m c =>
      cases moves
      rw [setPc_self] at hq
      cases c <;> cases hq
    | countCopied =>
      cases moves
      rw [setPc_self] at hq
      split at hq <;> cases hq
    | returned =>
      cases moves
      rw [returnFrom,setPc_self] at hq
      exact absurd hq (resume_ne _ _ rfl)
    | fatalSignal | signal | handle | ownerRead | stillValid | exited | unlinked | destroyStays
    | flushed | deleted => cases moves
  · rw [h.pc_of_ne moves] at hq
    exact .inl hq

/-- A deletion thread reads the pid of the process from its mailbox, or from what is left of it. -/
lemma step_ownerRead {k : ℕ} {o : Oracle} (deletion : s.deletions k = some ⟨m,.start⟩)
    (taken : step hash32 s (.runDeletion k o) = some s') : s' = s.setDeletion k
      ⟨m,.waitExit (if (s.mailboxes m).frees = 0 then s.owner m else o.staleOwner)⟩ := by
  simp only [step,deletion,runDeletionThread] at taken
  cases taken
  rfl

/-- The parts of the system that the life of a mailbox rests on. -/
structure LifeContext (hash32 : Pid → ℕ) (tr : List (System × Action)) (s : System) : Prop where
  consistent : Consistent hash32 s
  bounds : InBounds s
  uncreated : Uncreated s
  coherent : Registry.Coherent s.registry
  threads : ThreadInvariant s
  removesOwn : s.RemovesOwn
  calls : CallInvariant tr s

theorem lifeContext_of_run (h : Run (step hash32) (initial sig) tr s) : LifeContext hash32 tr s where
  consistent := consistent_of_run h
  bounds := inBounds_of_run h
  uncreated := uncreated_of_run h
  coherent := coherent_of_run h
  threads := threadInvariant_of_run h
  removesOwn := removesOwn_of_run h
  calls := callInvariant_of_run h

/-- A message that is put on a list comes from a send to the owner of the mailbox. -/
lemma LifeContext.sending_of_adds (cx : LifeContext hash32 tr s) (h : Stepped hash32 s act s')
    (adds : s.adds m false act = some x) : ∃ q i len block, act.moves = some q ∧
      callOf q tr = some (i,.sendMessage (s.owner m) len block) := by
  obtain ⟨p,cs,hmoves,-,-,⟨-,hpc⟩ | ⟨hhead,-⟩⟩ := h.adder cx.consistent adds
  · obtain ⟨i,len,block,hcall⟩ := cx.calls.sending hpc
    exact ⟨p,i,len,block,hmoves,hcall⟩
  · cases hhead

section Removal
variable (cx : LifeContext hash32 tr s) (free : s.Unremoved g)
include cx free

/-- No deletion of a mailbox of the process in the table is under way. -/
lemma Unremoved.not_underway (linked : s.table.Linked m) (owner : s.owner m = g) :
    ¬ s.DeletionUnderway m := by
  rintro (⟨q,hq⟩ | ⟨k,d,hd,rfl⟩)
  · have hgroup := cx.removesOwn q m hq
    rw [owner] at hgroup
    exact (free.removals q hgroup).2 m hq
  · have hr : s.registry.retirer k = some (d.mailbox,d.pc.phase) :=
      congrArg (Option.map DeletionThread.retirer) hd
    have hnot := free.deletions k d hd
    -- a thread that waits to unlink the mailbox knows its owner, as the mailbox has not been freed
    have hpid : ∀ pid, d.pc.phase = .waiting pid → pid = g := by
      intro pid hphase
      rw [hphase] at hr
      rcases cx.coherent.waiting hr with he | hfreed
      · exact he.trans owner
      · exact absurd linked (cx.coherent.freed_unlinked hfreed)
    unfold Unlinks at hnot
    cases hpc : d.pc with
    | start =>
      rw [hpc] at hnot
      exact hnot owner
    | waitExit pid | unlink pid =>
      rw [hpc] at hnot
      exact hnot (hpid pid (by rw [hpc]; rfl))
    | destroying cs =>
      refine cx.coherent.unlinked hr ?_ linked
      rw [hpc]
      cases cs <;> trivial
    | done =>
      refine cx.coherent.unlinked hr ?_ linked
      rw [hpc]
      trivial

lemma Unremoved.removals_stepped (h : Stepped hash32 s act s') (calm : Calm g s act)
    (running : s'.Running g) (q : Pid) (hgroup : s'.processes.group q = some g) :
    (∀ group, s'.pc q ≠ .removeLookup group) ∧ ∀ m, ¬ (s'.pc q).RemovesMailbox m := by
  -- a thread that has been there before is in the same process
  have hkept : s.pc q ≠ .absent → s.pc q ≠ .zombie → s.processes.group q = some g := by
    intro hpresent halive
    rw [← cx.threads.group_kept h hpresent halive]
    exact hgroup
  constructor
  · intro group hpc
    rcases removeLookup_cases h hpc with hold | rfl | ⟨hhook,hmoves,hlast⟩
    · have hold' := hkept (by rw [hold]; nofun) (by rw [hold]; nofun)
      exact (free.removals q hold').1 group hold
    · have huser : s.pc q ≠ .absent ∧ s.pc q ≠ .zombie := by
        cases h with
        | exitGroup user => exact ⟨by rw [user]; nofun,by rw [user]; nofun⟩
      exact calm.exitGroup q rfl (Processes.tgid_of_group (hkept huser.1 huser.2))
    · -- the last thread is the one in its hook, so no other runs
      have hq := hkept (by rw [hhook]; nofun) (by rw [hhook]; nofun)
      rw [Processes.tgid_of_group hq] at hlast
      obtain ⟨r,hr,hrun⟩ := running
      have hne : r ≠ q := by
        rintro rfl
        rw [hpc] at hrun
        cases hrun
      have hmoves' : act.moves ≠ some r := by
        rw [hmoves]
        exact fun he => hne (Option.some.inj he).symm
      rw [h.group_of_ne hmoves'] at hr
      rw [h.pc_of_ne hmoves'] at hrun
      exact hne (cx.threads.eq_of_live hlast hr hq (live_of_running hrun) (by rw [hhook]; rfl))
  · intro n hremoves
    rcases removes_stepped h hremoves with hold | ⟨⟨group,hpc⟩,-⟩
    · obtain ⟨hpresent,halive⟩ := removes_ne hold
      exact (free.removals q (hkept hpresent halive)).2 n hold
    · have hq := hkept (by rw [hpc]; nofun) (by rw [hpc]; nofun)
      exact (free.removals q hq).1 group hpc

lemma Unremoved.deletions_stepped (taken : step hash32 s act = some s') (calm : Calm g s act)
    (k : ℕ) (d : DeletionThread) (hd : s'.deletions k = some d) : ¬ s'.Unlinks g d := by
  have h := step_stepped taken
  -- a thread that was there before keeps the owner of its mailbox
  have hold : ∀ k d, s.deletions k = some d → ¬ s'.Unlinks g d := by
    intro k d hd hunlinks
    apply free.deletions k d hd
    unfold Unlinks at hunlinks ⊢
    rw [← owner_stepped h (cx.bounds.deletions k d hd)]
    exact hunlinks
  have hupdate : ∀ k' d', Function.update s.deletions k' (some d') k = some d →
      ¬ s'.Unlinks g d' → ¬ s'.Unlinks g d := by
    intro k' d' hd hd'
    by_cases hk : k = k'
    · subst k'
      rw [Function.update_self] at hd
      cases hd
      exact hd'
    · rw [Function.update_of_ne hk] at hd
      exact hold k d hd
  cases h with
  | @deletionStarted p o n group pc =>
    refine hupdate _ _ hd fun howner => ?_
    have hremoves : (s.pc p).RemovesMailbox n := by
      rw [pc]
      rfl
    have hgroup := cx.removesOwn p n hremoves
    have howner' : s.owner n = g := howner
    rw [howner'] at hgroup
    exact (free.removals p hgroup).2 n hremoves
  | @ownerRead k' n o pid deletion =>
    rw [step_ownerRead deletion taken] at hd
    refine hupdate _ _ hd fun hpid => ?_
    have hpid' : (if (s.mailboxes n).frees = 0 then s.owner n else o.staleOwner) = g := hpid
    split_ifs at hpid' with hf
    · exact free.deletions k' _ deletion hpid'
    · exact calm.stale k' o n rfl deletion hf hpid'
  | @exited k' n o pid deletion =>
    exact hupdate _ _ hd (free.deletions k' _ deletion)
  | unlinked | destroyStays | flushed | deleted => exact hupdate _ _ hd id
  | _ => exact hold k d hd

/-- A section keeps the mailboxes of the process in the table running and the others stopped. -/
lemma Unremoved.stopped_stepped (h : Stepped hash32 s act s') (calm : Calm g s act)
    (created : m < s.mailboxesCreated) (owner : s.owner m = g) :
    (s'.mailboxes m).stopped = 0 ↔ (s.mailboxes m).stopped = 0 := by
  cases h.mailboxStep m with
  | same mailbox => rw [mailbox]
  | created new => omega
  | @run a cs pr running locked =>
    rw [locked.2.stopped_eq]
    have called := (running_eq_some_iff.mp running).2
    cases hw : Mailbox.writesStopped cs with
    | none => exact Iff.rfl
    | some st =>
      rcases cx.consistent.status_cases called hw with rfl | ⟨rfl,hunderway⟩
      · exact absurd owner (calm.stop a m running)
      · have hnonzero : (some (exitingFlag ||| stoppedFlag)).getD (s.mailboxes m).stopped ≠ 0 := by
          simp [exitingFlag,stoppedFlag]
        refine iff_of_false hnonzero fun hrunning => ?_
        have hlinked := (free.linked m created owner).mpr hrunning
        exact free.not_underway cx hlinked owner (registry_underway hunderway)

lemma Unremoved.linked_stepped (h : Stepped hash32 s act s') (created : m < s.mailboxesCreated)
    (owner : s.owner m = g) : s'.table.Linked m ↔ s.table.Linked m := by
  cases h with
  | @created p o pid c pc unlocked missing memory =>
    refine (linked_put (cx.consistent.table_create pid)).trans ⟨?_,fun hl => .inr ⟨hl,?_⟩⟩
    · rintro (rfl | ⟨hl,-⟩)
      · omega
      · exact hl
    · rw [cx.consistent.owner_create pid hl]
      exact owner_ne_of_get cx.consistent.table missing hl
  | @unlinked k n o pid deletion =>
    have hne : pid ≠ g := free.deletions k _ deletion
    refine (linked_remove cx.consistent.table).trans ⟨And.left,fun hl => ⟨hl,?_⟩⟩
    rw [owner]
    exact hne.symm
  | _ => exact Iff.rfl

theorem Unremoved.stepped (taken : step hash32 s act = some s') (calm : Calm g s act)
    (running : s'.Running g) : s'.Unremoved g where
  removals := free.removals_stepped cx (step_stepped taken) calm running
  deletions := free.deletions_stepped cx taken calm
  linked m created owner := by
    have h := step_stepped taken
    by_cases hm : m < s.mailboxesCreated
    · rw [owner_stepped h hm] at owner
      rw [free.linked_stepped cx h hm owner,free.stopped_stepped cx h calm hm owner]
      exact free.linked m hm owner
    · -- the mailbox has just been created
      rcases mailboxesCreated_stepped h with he | ⟨he,p,pid,c,rfl⟩
      · omega
      · obtain rfl : m = s.mailboxesCreated := by omega
        refine iff_of_true ((linked_put (cx.consistent.table_create pid)).mpr (.inl rfl)) ?_
        change ((s.setMailbox s.mailboxesCreated (.create pid)).mailboxes s.mailboxesCreated).stopped = 0
        rw [setMailbox_self]
        rfl

/-- The process keeps the mailbox that it has. -/
lemma Unremoved.get_stepped (h : Stepped hash32 s act s') (found : s.get hash32 g = some m) :
    s'.get hash32 g = some m := by
  obtain ⟨hlinked,howner⟩ := linked_of_get found
  apply System.get_stepped cx.consistent h found
  exact (free.linked_stepped cx h (cx.consistent.linked_lt m hlinked) howner).mpr hlinked

end Removal

/-- What holds of the mailbox of a process that runs. -/
structure LifeInvariant (hash32 : Pid → ℕ) (tr : List (System × Action)) (s : System) (g : Pid) :
    Prop where
  free : s.Unremoved g
  kept : ∀ y ∈ tr, y.1.processes.births g = s.processes.births g → ∀ m,
    y.1.get hash32 g = some m → s.get hash32 g = some m
  queued : ∀ m x, SentTo tr s m g x → s.get hash32 g = some m ∧
    (x ∈ (s.mailboxes m).messages ∨ TakenOff tr m x)

lemma TakenOff.mono (h : TakenOff tr m x) (y : System × Action) : TakenOff (tr ++ [y]) m x := by
  obtain ⟨z,hz,hout⟩ := h
  exact ⟨z,List.mem_append_left _ hz,hout⟩

/-- A message that has been sent was sent before, or the last step has put it on the list. -/
lemma SentTo.cases (sent : SentTo (tr ++ [(s,act)]) s' m g x) :
    (∃ y ∈ tr, y.1.processes.births g = s'.processes.births g) ∧
        (s'.processes.births g = s.processes.births g → SentTo tr s m g x) ∨
      s.processes.births g = s'.processes.births g ∧ ∃ q i len block, act.moves = some q ∧
        callOf q tr = some (i,.sendMessage g len block) ∧ s.adds m false act = some x := by
  obtain ⟨before,t,act',after,q,i,len,block,htr,hq,hcall,hadds,hbirths⟩ := sent
  rcases List.eq_nil_or_concat after with rfl | ⟨rest,y,rfl⟩
  · obtain ⟨rfl,hlast⟩ := List.append_inj' htr rfl
    cases hlast
    exact .inr ⟨hbirths,q,i,len,block,hq,hcall,hadds⟩
  · rw [List.concat_eq_append,← List.cons_append,← List.append_assoc] at htr
    obtain ⟨rfl,-⟩ := List.append_inj' htr rfl
    refine .inl ⟨⟨(t,act'),by simp,hbirths⟩,fun same => ?_⟩
    exact ⟨before,t,act',rest,q,i,len,block,rfl,hq,hcall,hadds,hbirths.trans same⟩

section Life
variable (cx : LifeContext hash32 tr s) (inv : LifeInvariant hash32 tr s g)
include cx inv

/-- A message that is queued stays on the list until a receive takes it. -/
lemma LifeInvariant.stays_queued (h : Stepped hash32 s act s') (found : s.get hash32 g = some m)
    (hx : x ∈ (s.mailboxes m).messages) :
    x ∈ (s'.mailboxes m).messages ∨ TakenOff (tr ++ [(s,act)]) m x := by
  obtain ⟨hlinked,howner⟩ := linked_of_get found
  have hlt := cx.consistent.linked_lt m hlinked
  cases h.mailboxStep m with
  | same mailbox => exact .inl (mailbox ▸ hx)
  | created new => omega
  | @run a cs pr running locked =>
    cases locked.2.listStep with
    | same messages | refused adding ended code messages => exact .inl (messages ▸ hx)
    | @added y head adding ended messages =>
      rw [messages]
      left
      cases head with
      | true => exact List.mem_cons_of_mem _ hx
      | false => exact List.mem_append_left _ hx
    | taken ended messages =>
      obtain ⟨y,rest,hlist⟩ := List.exists_cons_of_ne_nil (List.ne_nil_of_mem hx)
      rw [hlist] at hx ended messages
      rcases List.mem_cons.mp hx with rfl | hx
      · subst pr
        exact .inr ⟨(s,act),by simp,outcome_eq running locked⟩
      · rw [messages]
        exact .inl hx
    | flushed ended messages =>
      subst pr
      have hunderway := underway_of_flush cx.consistent (outcome_eq running locked)
      exact absurd hunderway (inv.free.not_underway cx hlinked howner)

lemma LifeInvariant.queued_stepped (h : Stepped hash32 s act s')
    (births : s'.processes.births g = s.processes.births g)
    (m : ℕ) (x : MessagePtr) (sent : SentTo (tr ++ [(s,act)]) s' m g x) :
    s'.get hash32 g = some m ∧ (x ∈ (s'.mailboxes m).messages ∨ TakenOff (tr ++ [(s,act)]) m x) := by
  rcases sent.cases with ⟨-,hold⟩ | ⟨-,q,i,len,block,hmoves,hcall,hadds⟩
  · obtain ⟨hfound,hthere⟩ := inv.queued m x (hold births)
    refine ⟨inv.free.get_stepped cx h hfound,?_⟩
    rcases hthere with hx | htaken
    · exact inv.stays_queued cx h hfound hx
    · exact .inr (htaken.mono _)
  · -- a message is put on the list of a mailbox that runs, so the mailbox is in the table
    obtain ⟨q',i',len',block',hmoves',hcall'⟩ := cx.sending_of_adds h hadds
    rw [hmoves] at hmoves'
    cases hmoves'
    rw [hcall] at hcall'
    cases hcall'
    obtain ⟨a,cs,running,locked,hadding⟩ := h.section_of_adds hadds
    have hlt := cx.bounds.call_lt (running_eq_some_iff.mp running).2
    have hlinked := (inv.free.linked _ hlt rfl).mpr (locked.2.running_of_added hadding)
    refine ⟨inv.free.get_stepped cx h ((get_eq_some_iff cx.consistent.table).mpr ⟨hlinked,rfl⟩),
      .inl ?_⟩
    rw [h.messages_of_adds hadds]
    simp

theorem LifeInvariant.stepped (taken : step hash32 s act = some s') (calm : Calm g s act)
    (running : s'.Running g) (births : s'.processes.births g = s.processes.births g) :
    LifeInvariant hash32 (tr ++ [(s,act)]) s' g where
  free := inv.free.stepped cx taken calm running
  kept y hy hbirths m found := by
    apply inv.free.get_stepped cx (step_stepped taken)
    rcases List.mem_append.mp hy with hy | hy
    · exact inv.kept y hy (hbirths.trans births) m found
    · rw [List.mem_singleton.mp hy] at found
      exact found
  queued := inv.queued_stepped cx (step_stepped taken) births

end Life

/-- A process starts its life without a mailbox that is being removed. -/
lemma lifeInvariant_start (h : Run (step hash32) (initial sig) tr s)
    (taken : step hash32 s act = some s') (running : s'.Running g) {uid : ℕ}
    (action : act = .newProcess g uid) (free : s.Unremoved g) :
    LifeInvariant hash32 (tr ++ [(s,act)]) s' g := by
  have cx := lifeContext_of_run h
  have hnew : s'.processes.births g = s.processes.births g + 1 := by
    cases step_stepped taken with
    | newProcess =>
      cases action
      exact Function.update_self _ _ _
    | _ => cases action
  have hcalm : Calm g s act := by
    subst act
    constructor
    · intro q hq
      cases hq
    · intro a m hrun
      cases hrun
    · intro k o m hact
      cases hact
  -- the states before are from earlier lifetimes
  have hearlier : ∀ y ∈ tr ++ [(s,act)], y.1.processes.births g ≠ s'.processes.births g := by
    intro y hy he
    have hle : y.1.processes.births g ≤ s.processes.births g := by
      rcases List.mem_append.mp hy with hy | hy
      · obtain ⟨before,after,t,rfl,-,ht,hafter⟩ := h.split hy
        exact Nat.le_trans (births_le (step_stepped ht) g) (births_run hafter g)
      · rw [List.mem_singleton.mp hy]
    omega
  refine ⟨free.stepped cx taken hcalm running,fun y hy he => absurd he (hearlier y hy),?_⟩
  intro m x hsent
  rcases hsent.cases with ⟨⟨y,hy,he⟩,-⟩ | ⟨he,-⟩
  · exact absurd he (hearlier y (List.mem_append_left _ hy))
  · exact absurd he (hearlier (s,act) (by simp))

theorem lifeInvariant_of_run (h : Run (step hash32) (initial sig) tr s) (calm : CalmLife g tr s)
    (running : s.Running g) : LifeInvariant hash32 tr s g := by
  induction h with
  | refl =>
    obtain ⟨q,hq,-⟩ := running
    cases hq
  | @snoc tr s act s' prior taken ih =>
    have hs := step_stepped taken
    have hthreads := threadInvariant_of_run prior
    rcases running_stepped hthreads hs running with hbefore | ⟨uid,hact⟩
    · have hbirths : s'.processes.births g = s.processes.births g := by
        obtain ⟨q,hq,-⟩ := hbefore
        exact births_member hthreads hs hq
      have hcalm : CalmLife g tr s := by
        constructor
        · intro y hy he
          exact calm.calm y (List.mem_append_left _ hy) (he.trans hbirths.symm)
        · intro y hy
          exact calm.started y (List.mem_append_left _ hy)
      exact (ih hcalm hbefore).stepped (lifeContext_of_run prior) taken
        (calm.calm (s,act) (by simp) hbirths.symm) running hbirths
    · exact lifeInvariant_start prior taken running hact (calm.started (s,act) (by simp) uid hact)

/-- A dead task has set `PF_EXITING` before. -/
lemma exiting_of_dead (h : Run (step hash32) (initial sig) tr s) :
    ∀ p task, s.processes.task p = some task → task.dead = true → task.exiting = true := by
  induction h with
  | refl =>
    intro p task hp
    cases hp
  | @snoc tr s act s' prior taken ih =>
    intro p task hp hdead
    cases (step_stepped taken).processStep with
    | same processes | signalled action processes | decremented moves pc processes =>
      rw [processes] at hp
      exact ih p task hp hdead
    | @started r uid action absent free processes
    | @cloned parent r last caller action hcaller alive absent free processes =>
      rw [processes] at hp
      change Function.update s.processes.task r _ p = some task at hp
      by_cases hpr : p = r
      · subst p
        rw [Function.update_self] at hp
        cases hp
        cases hdead
      · rw [Function.update_of_ne hpr] at hp
        exact ih p task hp hdead
    | @exits r group moves pc processes =>
      rw [processes] at hp
      by_cases hpr : p = r
      · subst p
        exact Processes.exiting_of_setExiting hp
      · rw [Processes.task_setExiting_of_ne _ hpr] at hp
        exact ih p task (by cases group <;> exact hp) hdead
    | @died r moves pc processes =>
      rw [processes] at hp
      by_cases hpr : p = r
      · subst p
        obtain ⟨t,ht,he⟩ := Processes.of_die hp
        rw [he,(threadInvariant_of_run prior).exiting r t ht,pc]
        rfl
      · rw [Processes.task_die_of_ne _ hpr] at hp
        exact ih p task hp hdead
    | @released r moves pc may processes =>
      rw [processes,Processes.task_release] at hp
      by_cases hpr : p = r
      · subst p
        rw [Function.update_self] at hp
        cases hp
      · rw [Function.update_of_ne hpr] at hp
        exact ih p task hp hdead

/-- A process of a user is valid as long as its leader has not set `PF_EXITING`. -/
lemma isProcessValid_iff (h : Run (step hash32) (initial sig) tr s) {leader : Task}
    (task : s.processes.task g = some leader) (user : 1000 ≤ leader.uid) :
    s.processes.isProcessValid g = true ↔ leader.exiting = false := by
  unfold Processes.isProcessValid
  rw [task]
  dsimp only
  have hdead := exiting_of_dead h g leader task
  cases hd : leader.dead with
  | true =>
    rw [hd] at hdead
    simp [hdead rfl]
  | false =>
    have huser : ¬ leader.uid < 1000 := not_lt.mpr user
    cases leader.exiting <;> simp [huser]

lemma step_valid {c : Syscall} {o : Oracle} {pid : Pid} (pc : s.pc p = .validate pid c)
    (valid : s.processes.isProcessValid pid = true) :
    step hash32 s (.run p o) = some (s.setPc p (.lookup pid c)) := by
  simp [step,runTask,pc,valid]

lemma step_lookup {c : Syscall} {o : Oracle} {pid : Pid} (pc : s.pc p = .lookup pid c)
    (unlocked : s.tableLock = none) :
    step hash32 s (.run p o) = some (s.lookupMailbox hash32 p pid c o) := by
  simp [step,runTask,pc,unlocked]

lemma step_claim {c : Syscall} {o : Oracle} {fresh : Bool}
    (pc : s.pc p = .onMailbox m .claim (.claimed fresh c)) : step hash32 s (.run p o) =
      some (s.returnFrom p m (.claimed fresh c) (s.mailboxes m).claim (.code .ok)) := by
  simp [step,runTask,pc,Mailbox.runnable,runSection,Mailbox.criticalSection,returnFrom]

lemma step_granted {c : Syscall} {o : Oracle} (pc : s.pc p = .checkExiting m c)
    (running : (s.mailboxes m).stopped = 0) :
    step hash32 s (.run p o) = some ({ s with tableLock := none }.setPc p (c.begin m)) := by
  simp [step,runTask,pc,running]

/-- A lookup that comes alone and finds a mailbox that runs hands it out. -/
lemma found_run {c : Syscall} {o : Oracle} {pid : Pid} (pc : s.pc p = .lookup pid c)
    (unlocked : s.tableLock = none) (found : s.get hash32 pid = some m)
    (running : (s.mailboxes m).stopped = 0) :
    ∃ tr' s', Run (step hash32) s tr' s' ∧ (∀ y ∈ tr', y.2 = .run p o) ∧ s'.pc p = c.begin m ∧
      s'.tableLock = none ∧ s'.table = s.table ∧
      s'.mailboxes = Function.update s.mailboxes m (s.mailboxes m).claim := by
  have hlookup : step hash32 s (.run p o) = _ := step_lookup pc unlocked
  simp only [lookupMailbox,found] at hlookup
  have hclaim : step hash32 ({ s with tableLock := some p }.setPc p
      (.onMailbox m .claim (.claimed false c))) (.run p o) = _ := step_claim (setPc_self _ _ _)
  have hgranted : ∀ t : System, t.pc p = .checkExiting m c → (t.mailboxes m).stopped = 0 →
      step hash32 t (.run p o) = some ({ t with tableLock := none }.setPc p (c.begin m)) :=
    fun t => step_granted
  refine ⟨_,_,.cons hlookup (.cons hclaim (.single (hgranted _ (setPc_self _ _ _) ?_))),by simp,
    setPc_self _ _ _,rfl,rfl,rfl⟩
  exact (congrArg Mailbox.stopped (setMailbox_self s m (s.mailboxes m).claim)).trans running

/-- A lookup that comes alone and finds no mailbox makes one. -/
lemma created_run {c : Syscall} {o : Oracle} {pid : Pid} (hc : Consistent hash32 s)
    (pc : s.pc p = .lookup pid c) (unlocked : s.tableLock = none)
    (missing : s.get hash32 pid = none) (memory : o.alloc = true) :
    ∃ tr' s', Run (step hash32) s tr' s' ∧ (∀ y ∈ tr', y.2 = .run p o) ∧
      s'.pc p = c.begin s.mailboxesCreated ∧ s'.tableLock = none ∧
      s'.table.Linked s.mailboxesCreated ∧
      s'.mailboxes s.mailboxesCreated = (Mailbox.create pid).claim := by
  have hlookup : step hash32 s (.run p o) = _ := step_lookup pc unlocked
  simp only [lookupMailbox,missing,memory,if_true] at hlookup
  change step hash32 s (.run p o) = some (s.createMailbox hash32 p pid c) at hlookup
  have hclaim : step hash32 (s.createMailbox hash32 p pid c) (.run p o) = _ :=
    step_claim (setPc_self _ _ _)
  refine ⟨_,_,.cons hlookup (.single hclaim),by simp,setPc_self _ _ _,rfl,?_,?_⟩
  · exact (linked_put (hc.table_create pid)).mpr (.inl rfl)
  · refine (setMailbox_self _ _ _).trans ?_
    exact congrArg Mailbox.claim (setMailbox_self s s.mailboxesCreated (.create pid))

/-- A lookup that comes alone finds the mailbox of the process, or makes it. -/
lemma getSucceeds (uncreated : Uncreated s) (hc : Consistent hash32 s)
    (valid : s.processes.isProcessValid g = true)
    (runs : ∀ m, s.get hash32 g = some m → (s.mailboxes m).stopped = 0) :
    GetSucceeds hash32 s g := by
  intro p c o hpc hlock halloc
  have hvalid : step hash32 s (.run p o) = _ := step_valid hpc valid
  have hc' := hc.stepped (step_stepped hvalid)
  -- whoever has the mailbox in the table under its owner finds it
  have hget : ∀ {t : System} {tr' m}, Run (step hash32) (s.setPc p (.lookup g c)) tr' t →
      t.table.Linked m → t.owner m = g → t.get hash32 g = some m := by
    intro t tr' m hrun hlinked howner
    have hct := hrun.invariant hc' fun _ _ _ ht taken => ht.stepped (step_stepped taken)
    exact (get_eq_some_iff hct.table).mpr ⟨hlinked,howner⟩
  cases hfound : s.get hash32 g with
  | some m =>
    obtain ⟨hlinked,howner⟩ := linked_of_get hfound
    obtain ⟨tr',s',hrun,hall,hbegin,hunlocked,htable,hmailboxes⟩ :=
      found_run (s := s.setPc p (.lookup g c)) (o := o) (setPc_self _ _ _) hlock hfound (runs m hfound)
    have hclaimed : s'.mailboxes m = (s.mailboxes m).claim := by
      rw [hmailboxes]
      exact Function.update_self _ _ _
    refine ⟨_,s',m,.cons hvalid hrun,?_,hbegin,hunlocked,hget hrun ?_ ?_,?_⟩
    · intro y hy
      rcases List.mem_cons.mp hy with rfl | hy
      · rfl
      · exact hall y hy
    · rw [htable]
      exact hlinked
    · rw [owner,hclaimed]
      exact howner
    · rw [hclaimed]
      rfl
  | none =>
    obtain ⟨tr',s',hrun,hall,hbegin,hunlocked,hlinked,hclaimed⟩ :=
      created_run (s := s.setPc p (.lookup g c)) (o := o) hc' (setPc_self _ _ _) hlock hfound halloc
    refine ⟨_,s',_,.cons hvalid hrun,?_,hbegin,hunlocked,hget hrun hlinked ?_,?_⟩
    · intro y hy
      rcases List.mem_cons.mp hy with rfl | hy
      · rfl
      · exact hall y hy
    · rw [owner,hclaimed]
      rfl
    · rw [hclaimed,show (s.setPc p (.lookup g c)).mailboxesCreated = s.mailboxesCreated from rfl,
        uncreated _ (Nat.le_refl _)]
      rfl

/-- As long as a thread of a user's process runs, the process has a calm life and its mailbox was
not being removed when it began, the mailbox lives just in case the leader has not set
`PF_EXITING`. -/
theorem mailboxLives_iff (h : Run (step hash32) (initial sig) tr s) (running : s.Running g)
    (calm : CalmLife g tr s) {leader : Task} (task : s.processes.task g = some leader)
    (user : 1000 ≤ leader.uid) : MailboxLives hash32 tr s g ↔ leader.exiting = false := by
  have hvalid := isProcessValid_iff h task user
  constructor
  · intro hlives
    exact hvalid.mp hlives.valid
  · intro hleader
    have hinv := lifeInvariant_of_run h calm running
    have hc := consistent_of_run h
    have hruns : ∀ m, s.get hash32 g = some m → (s.mailboxes m).stopped = 0 := by
      intro m hm
      obtain ⟨hlinked,howner⟩ := linked_of_get hm
      exact (hinv.free.linked m (hc.linked_lt m hlinked) howner).mp hlinked
    have hpid := hvalid.mpr hleader
    refine ⟨hpid,getSucceeds (uncreated_of_run h) hc hpid hruns,?_,hinv.kept,hinv.queued⟩
    intro m hm
    refine ⟨hruns m hm,?_⟩
    by_contra hfreed
    exact (coherent_of_run h).freed_unlinked hfreed (linked_of_get hm).1

/-- The action is calm, and if it starts the process there has been no mailbox before. -/
def isCalm (g : Pid) (y : System × Action) : Bool :=
  match y.2 with
  | .exitGroup _ => false
  | .runDeletion _ _ => false
  | .newProcess p _ => decide (p = g → y.1.processes.births g = 0 ∧ y.1.mailboxesCreated = 0 ∧
      y.1.deletionsStarted = 0)
  | act => (y.1.running act).all fun (_,_,cs) => decide (cs ≠ .stop stoppedFlag)

lemma calmLife_of_all (h : Run (step hash32) (initial sig) tr s) (all : tr.all (isCalm g) = true) :
    CalmLife g tr s := by
  rw [List.all_eq_true] at all
  constructor
  · rintro ⟨t,act⟩ hy -
    have hcalm := all _ hy
    constructor
    · rintro q rfl
      cases hcalm
    · intro a m hrun
      cases act with
      | run p o =>
        simp only [isCalm] at hcalm
        rw [hrun] at hcalm
        cases hcalm
      | runDeletion k o => cases hcalm
      | _ => cases hrun
    · rintro k o m rfl
      cases hcalm
  · rintro ⟨t,act⟩ hy uid rfl
    obtain ⟨before,after,u,rfl,hbefore,-,-⟩ := h.split hy
    have hcalm := all _ hy
    obtain ⟨hborn,hcreated,hstarted⟩ := (of_decide_eq_true hcalm) rfl
    constructor
    · intro q hq
      exact absurd hborn ((threadInvariant_of_run hbefore).born q g hq)
    · intro k d hd
      have hlt := (consistent_of_run hbefore).deletions_lt k (by rw [hd]; nofun)
      omega
    · intro m hm
      omega

/-- The second thread of process 1001 exits, and the process keeps its mailbox and message. -/
theorem mailboxLives_after_exit : ∃ (tr : List (System × Action)) (s : System),
    Run (step goldenHash32) (initial fun _ => false) tr s ∧ s.pc 1002 = .zombie ∧
      (s.mailboxes 0).messageCount = 1 ∧ MailboxLives goldenHash32 tr s 1001 := by
  obtain ⟨tr,s,hrun,htest⟩ := exists_run_of_execute (step goldenHash32) (initial fun _ => false)
    ([.newProcess 1001 1000,.clone 1001 1002,.enter 1001 (.sendMessage 1001 0 false)] ++
      runs 1001 6 ++ [.exit 1002] ++ runs 1002 4)
    (fun tr s => tr.all (isCalm 1001) && decide (s.pc 1002 = .zombie ∧
      (s.mailboxes 0).messageCount = 1 ∧ s.processes.group 1001 = some 1001 ∧
      (s.pc 1001).running = true ∧ s.processes.task 1001 = some ⟨1001,1000,false,false⟩))
    (by decide +kernel)
  rw [Bool.and_eq_true] at htest
  obtain ⟨hall,hend⟩ := htest
  obtain ⟨hzombie,hcount,hgroup,hrunning,htask⟩ := of_decide_eq_true hend
  exact ⟨tr,s,hrun,hzombie,hcount,(mailboxLives_iff hrun ⟨1001,hgroup,hrunning⟩
    (calmLife_of_all hrun hall) htask (Nat.le_refl _)).mpr rfl⟩

/-- The leader of process 1001 exits before its second thread, which then cannot receive the
message that is in the mailbox. -/
theorem exists_mailbox_lost : ∃ (tr : List (System × Action)) (s : System),
    Run (step goldenHash32) (initial fun _ => false) tr s ∧ s.Running 1001 ∧ CalmLife 1001 tr s ∧
      s.processes.task 1001 = some ⟨1001,1000,true,false⟩ ∧ (s.mailboxes 0).messageCount = 1 ∧
      s.pc 1002 = .user (some .mailboxInvalid) ∧ ¬ MailboxLives goldenHash32 tr s 1001 := by
  obtain ⟨tr,s,hrun,htest⟩ := exists_run_of_execute (step goldenHash32) (initial fun _ => false)
    ([.newProcess 1001 1000,.clone 1001 1002,.enter 1001 (.sendMessage 1001 0 false)] ++
      runs 1001 6 ++ [.exit 1001] ++ runs 1001 3 ++ [.enter 1002 (.recieveMessage ⟨4,0,4⟩ false)] ++
      runs 1002 1)
    (fun tr s => tr.all (isCalm 1001) && decide (s.processes.group 1002 = some 1001 ∧
      s.processes.task 1001 = some ⟨1001,1000,true,false⟩ ∧ (s.mailboxes 0).messageCount = 1 ∧
      s.pc 1002 = .user (some .mailboxInvalid)))
    (by decide +kernel)
  rw [Bool.and_eq_true] at htest
  obtain ⟨hall,hend⟩ := htest
  obtain ⟨hgroup,htask,hcount,hinvalid⟩ := of_decide_eq_true hend
  refine ⟨tr,s,hrun,⟨1002,hgroup,by rw [hinvalid]; rfl⟩,calmLife_of_all hrun hall,htask,hcount,
    hinvalid,fun hlives => ?_⟩
  cases (isProcessValid_iff hrun htask (Nat.le_refl _)).mp hlives.valid

end System
end ProcessMessagePassing
