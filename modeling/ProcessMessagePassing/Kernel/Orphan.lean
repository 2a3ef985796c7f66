import ProcessMessagePassing.Kernel.Deletion
import ProcessMessagePassing.Kernel.Exiting
import ProcessMessagePassing.Kernel.Threads

/-! What is left in the hash table when a process is gone. The mailbox of a process is removed in
the exit hook of one of its threads, and it can be created after the last of them. -/
namespace ProcessMessagePassing
open Concurrency HashTable

/-- The task has not yet done in its exit hook what it does for the mailbox of its process. -/
def Pc.beforeHook : Pc → Bool
  | .absent => false
  | .onMailbox _ _ (.hook _) => false
  | .startDeletion _ _ => false
  | .realExit _ => false
  | .decrementLive => false
  | .die => false
  | .zombie => false
  | _ => true

/-- The deletion thread has not unlinked the mailbox it was started with. -/
def DeletionPc.pending : DeletionPc → Bool
  | .start => true
  | .waitExit _ => true
  | .unlink _ => true
  | _ => false

/-- Where the action runs `kthread_run`, it succeeds. -/
def Action.startsThreads : Action → Bool
  | .run _ o => o.kthreadRun
  | _ => true

/-- Nothing is killed, and memory and threads are there when they are asked for. -/
def Action.regular : Action → Bool
  | .fatalSignal _ => false
  | .run _ o => o.alloc && o.kthreadRun
  | _ => true

lemma DeletionPc.pending_iff (pc : DeletionPc) : pc.pending = true ↔ ¬ pc.phase.Unlinked := by
  cases pc with
  | destroying cs => cases cs <;> exact ⟨nofun,fun h => absurd trivial h⟩
  | start | waitExit | unlink => exact ⟨fun _ => id,fun _ => rfl⟩
  | done => exact ⟨nofun,fun h => absurd trivial h⟩

lemma beforeHook_begin (m : ℕ) (c : Syscall) : (c.begin m).beforeHook = true := by
  cases c <;> rfl

lemma beforeHook_resume (m : ℕ) (r : Ret MessagePtr) {cs : CallState MessagePtr} {k : Cont} {n : ℕ}
    (h : (Pc.onMailbox n cs k).beforeHook = true) : (k.resume m r).beforeHook = true := by
  cases k with
  | claimed fresh c =>
    cases fresh with
    | true => exact beforeHook_begin m c
    | false => rfl
  | removed ptrs => cases r <;> rfl
  | hook group => cases h
  | added | refused | putBack | stopped | unclaimed | delivered => rfl

lemma not_removes_begin (m n : ℕ) (c : Syscall) : ¬ (c.begin n).RemovesMailbox m := by
  cases c <;> exact id

/-- A task that comes back to its exit hook was in it. -/
lemma removes_of_resume {m n : ℕ} {r : Ret MessagePtr} {cs : CallState MessagePtr} {k : Cont}
    (h : (k.resume n r).RemovesMailbox m) : (Pc.onMailbox n cs k).RemovesMailbox m := by
  cases k with
  | claimed fresh c =>
    cases fresh with
    | true => exact absurd h (not_removes_begin m n c)
    | false => exact h
  | removed ptrs => cases r <;> exact h
  | hook group => exact h
  | added | refused | putBack | stopped | unclaimed | delivered => exact h

namespace System
variable {hash32 : Pid → ℕ} {sig : Actor → Bool} {s s' : System} {act : Action}
  {tr tr' : List (System × Action)} {m : ℕ} {p q : Pid}

/-- The process has been there, and all its threads are through their exits. -/
def Gone (s : System) (p : Pid) : Prop :=
  s.processes.births p ≠ 0 ∧ ∀ q, s.processes.group q = some p → s.pc q = .zombie

/-- A deletion thread has been started for the mailbox and has not unlinked it. -/
def DeletionPending (s : System) (m : ℕ) : Prop :=
  ∃ k d, s.deletions k = some d ∧ d.mailbox = m ∧ d.pc.pending = true

/-- A thread of the process is still to come to its exit hook. -/
def Attended (s : System) (p : Pid) : Prop :=
  ∃ q, s.processes.group q = some p ∧ (s.pc q).beforeHook = true

/-- The process for which the action creates a mailbox. -/
def creates (hash32 : Pid → ℕ) (s : System) (act : Action) : Option Pid :=
  match act with
  | .run p o =>
    match s.pc p with
    | .lookup pid _ => if s.get hash32 pid = none ∧ o.alloc = true then some pid else none
    | _ => none
  | _ => none

/-- The thread that ends with this action and does not call `remove_mailbox_for_pid`. -/
def skipsRemoval (s : System) (act : Action) : Option Pid :=
  match act with
  | .run p _ =>
    match s.pc p with
    | .exitHook => if s.processes.live (s.processes.tgid p) = 1 then none else some p
    | _ => none
  | .killed p => some p
  | _ => none

lemma creates_eq_some_iff {pid : Pid} : s.creates hash32 act = some pid ↔
    ∃ p o c, act = .run p o ∧ s.pc p = .lookup pid c ∧ s.get hash32 pid = none ∧ o.alloc = true := by
  constructor
  · intro h
    unfold creates at h
    split at h
    · next p o =>
      split at h
      · next pid' c hpc =>
        split_ifs at h with hif
        cases h
        exact ⟨p,o,c,rfl,hpc,hif⟩
      · cases h
    · cases h
  · rintro ⟨p,o,c,rfl,hpc,hmissing,hmemory⟩
    simp only [creates,hpc,hmissing,hmemory,and_self,if_true]

lemma moves_of_skips (h : s.skipsRemoval act = some q) : act.moves = some q := by
  unfold skipsRemoval at h
  split at h
  · split at h
    · split_ifs at h
      exact h
    · cases h
  · exact h
  · cases h

/-- A process whose mailbox is created has a thread before its exit hook, and the last thread
that comes to its hook skips `remove_mailbox_for_pid` only if there is nothing to remove. -/
structure Tidy (hash32 : Pid → ℕ) (s : System) (act : Action) : Prop where
  creates : ∀ p, s.creates hash32 act = some p → s.processes.births p ≠ 0 → s.Attended p
  skips : ∀ q, s.skipsRemoval act = some q →
    (∃ q', q' ≠ q ∧ s.processes.group q' = some (s.processes.tgid q) ∧
      (s.pc q').beforeHook = true) ∨
    ∀ m, s.table.Linked m → s.owner m = s.processes.tgid q → s.DeletionUnderway m

/-- The mailbox of a process is attended to by one of its threads, or its deletion is under
way. -/
def Covered (s : System) (m : ℕ) : Prop :=
  s.processes.births (s.owner m) ≠ 0 → s.Attended (s.owner m) ∨ s.DeletionUnderway m

lemma beforeHook_ne {c : Pc} (h : c.beforeHook = true) : c ≠ .absent ∧ c ≠ .zombie := by
  constructor <;> rintro rfl <;> cases h

/-- How a task gets past the decision of its exit hook. -/
lemma hook_stepped (hs : Stepped hash32 s act s') (h : (s.pc q).beforeHook = true) :
    (s'.pc q).beforeHook = true ∨ s.skipsRemoval act = some q ∨
      (∃ m, s.get hash32 (s.processes.tgid q) = some m ∧ (s'.pc q).RemovesMailbox m) ∨
        s.get hash32 (s.processes.tgid q) = none := by
  by_cases moves : act.moves = some q
  · cases hs with
    | newProcess | clone | enter | exit | exitGroup | valid | invalid | found | outOfMemory
    | refused | messageCreated | messageFailed | countFault | destroyed | lastThread | copied
    | copyFault =>
      cases moves
      rw [setPc_self]
      exact .inl rfl
    | killed =>
      cases moves
      exact .inr (.inl rfl)
    | otherThread pc others =>
      cases moves
      exact .inr (.inl (by simp [skipsRemoval,pc,others]))
    | removalFound pc unlocked found =>
      cases moves
      refine .inr (.inr (.inl ⟨_,found,?_⟩))
      rw [setPc_self]
      rfl
    | removalMissing pc unlocked missing => cases moves; exact .inr (.inr (.inr missing))
    | created =>
      cases moves
      rw [createMailbox,setPc_self]
      exact .inl rfl
    | granted =>
      cases moves
      rw [setPc_self]
      exact .inl (beforeHook_begin _ _)
    | countCopied =>
      cases moves
      rw [setPc_self]
      left
      split <;> rfl
    | returned pc =>
      cases moves
      rw [returnFrom,setPc_self]
      rw [pc] at h
      exact .inl (beforeHook_resume _ _ h)
    | @stays p o n cs k m' pr cs' pc =>
      cases moves
      rw [setPc_self]
      rw [pc] at h
      left
      cases k <;> exact h
    | reap pc | deletionStarted pc | deletionFailed pc | realExit pc | decrementLive pc | die pc =>
      cases moves
      rw [pc] at h
      cases h
    | fatalSignal | signal | handle | ownerRead | stillValid | exited | unlinked | destroyStays
    | flushed | deleted => cases moves
  · rw [hs.pc_of_ne moves]
    exact .inl h

/-- Who has found the mailbox in `remove_mailbox_for_pid` had found it before, or finds it now. -/
lemma removes_stepped (hs : Stepped hash32 s act s') (h : (s'.pc q).RemovesMailbox m) :
    (s.pc q).RemovesMailbox m ∨
      (∃ group, s.pc q = .removeLookup group) ∧ s.get hash32 (s.processes.tgid q) = some m := by
  by_cases moves : act.moves = some q
  · cases hs with
    | newProcess | clone | enter | exit | exitGroup | killed | reap | valid | invalid | found
    | outOfMemory | refused | messageCreated | messageFailed | countFault | destroyed | lastThread
    | otherThread | removalMissing | deletionStarted | deletionFailed | realExit | decrementLive
    | die | copied | copyFault =>
      cases moves
      rw [setPc_self] at h
      exact False.elim h
    | created =>
      cases moves
      rw [createMailbox,setPc_self] at h
      exact False.elim h
    | removalFound pc unlocked found =>
      cases moves
      rw [setPc_self] at h
      cases h
      exact .inr ⟨⟨_,pc⟩,found⟩
    | granted =>
      cases moves
      rw [setPc_self] at h
      exact absurd h (not_removes_begin _ _ _)
    | countCopied =>
      cases moves
      rw [setPc_self] at h
      split at h <;> exact False.elim h
    | returned pc =>
      cases moves
      rw [returnFrom,setPc_self] at h
      rw [pc]
      exact .inl (removes_of_resume h)
    | @stays p o n cs k m' pr cs' pc =>
      cases moves
      rw [setPc_self] at h
      rw [pc]
      left
      cases k <;> exact h
    | fatalSignal | signal | handle | ownerRead | stillValid | exited | unlinked | destroyStays
    | flushed | deleted => cases moves
  · rw [hs.pc_of_ne moves] at h
    exact .inl h

/-- A deletion thread is never taken away from its mailbox. -/
lemma deletion_kept (hc : Consistent hash32 s) (hs : Stepped hash32 s act s') {k : ℕ}
    {d : DeletionThread} (h : s.deletions k = some d) :
    ∃ d', s'.deletions k = some d' ∧ d'.mailbox = d.mailbox := by
  have hupdate : ∀ k' (d' : DeletionThread), (k = k' → d'.mailbox = d.mailbox) →
      ∃ d'', Function.update s.deletions k' (some d') k = some d'' ∧ d''.mailbox = d.mailbox := by
    intro k' d' hd'
    by_cases hk : k = k'
    · subst k'
      exact ⟨d',Function.update_self _ _ _,hd' rfl⟩
    · exact ⟨d,by rw [Function.update_of_ne hk,h],rfl⟩
  cases hs with
  | deletionStarted =>
    apply hupdate
    rintro rfl
    exact absurd (hc.deletions_lt _ (by rw [h]; nofun)) (Nat.lt_irrefl _)
  | ownerRead deletion | exited deletion | unlinked deletion | destroyStays deletion
  | flushed deletion | deleted deletion =>
    apply hupdate
    rintro rfl
    rw [h] at deletion
    cases deletion
    rfl
  | _ => exact ⟨d,h,rfl⟩

/-- A removal that has found the mailbox goes on to start its deletion thread. -/
lemma removes_kept (hs : Stepped hash32 s act s') (starts : act.startsThreads = true)
    (h : (s.pc q).RemovesMailbox m) : s'.DeletionUnderway m := by
  by_cases moves : act.moves = some q
  · cases hs with
    | newProcess pc | clone caller alive pc | enter pc | exit pc | exitGroup pc | killed pc
    | reap pc | valid pc | invalid pc | found pc | created pc | outOfMemory pc | refused pc
    | granted pc | messageCreated pc | messageFailed pc | countFault pc | countCopied pc
    | copied pc | copyFault pc | destroyed pc | lastThread pc | otherThread pc | removalFound pc
    | removalMissing pc | realExit pc | decrementLive pc | die pc =>
      cases moves
      rw [pc] at h
      exact False.elim h
    | @stays p o n cs k m' pr cs' pc =>
      cases moves
      rw [pc] at h
      refine .inl ⟨q,?_⟩
      rw [setPc_self]
      cases k <;> exact h
    | @returned p o n cs k m' r pc =>
      cases moves
      rw [pc] at h
      refine .inl ⟨q,?_⟩
      rw [returnFrom,setPc_self]
      cases k with
      | hook group => exact h
      | _ => exact False.elim h
    | @deletionStarted p o n group pc =>
      cases moves
      rw [pc] at h
      exact .inr ⟨_,_,Function.update_self _ _ _,h⟩
    | @deletionFailed p o n group pc failure =>
      have hsuccess : o.kthreadRun = true := starts
      rw [hsuccess] at failure
      cases failure
    | fatalSignal | signal | handle | ownerRead | stillValid | exited | unlinked | destroyStays
    | flushed | deleted => cases moves
  · refine .inl ⟨q,?_⟩
    rw [hs.pc_of_ne moves]
    exact h

lemma underway_kept (hc : Consistent hash32 s) (hs : Stepped hash32 s act s')
    (starts : act.startsThreads = true) (h : s.DeletionUnderway m) : s'.DeletionUnderway m := by
  rcases h with ⟨q,hq⟩ | ⟨k,d,hd,rfl⟩
  · exact removes_kept hs starts hq
  · obtain ⟨d',hd',he⟩ := deletion_kept hc hs hd
    exact .inr ⟨k,d',hd',he⟩

lemma createMailbox_of_creates {pid : Pid} (creates : s.creates hash32 act = some pid)
    (taken : step hash32 s act = some s') : ∃ p c, s' = s.createMailbox hash32 p pid c := by
  obtain ⟨p,o,c,rfl,hpc,hmissing,hmemory⟩ := creates_eq_some_iff.mp creates
  simp only [step,runTask,hpc] at taken
  split_ifs at taken
  cases taken
  refine ⟨p,c,?_⟩
  simp only [lookupMailbox,hmissing,hmemory,if_true]
  rfl

/-- An entry of the table is there after a step if its mailbox is still linked. -/
lemma get_stepped {pid : Pid} (hc : Consistent hash32 s) (hs : Stepped hash32 s act s')
    (get : s.get hash32 pid = some m) (linked : s'.table.Linked m) : s'.get hash32 pid = some m := by
  obtain ⟨hlinked,howner⟩ := linked_of_get get
  refine (get_eq_some_iff (hc.stepped_table hs)).mpr ⟨linked,?_⟩
  exact (owner_stepped hs (hc.linked_lt m hlinked)).trans howner

/-- A mailbox is put into the table where it is created, which takes no task to its hook. -/
lemma linked_stepped (hc : Consistent hash32 s) (hs : Stepped hash32 s act s')
    (h : s'.table.Linked m) : s.table.Linked m ∨
      m = s.mailboxesCreated ∧ s.creates hash32 act = some (s'.owner m) ∧
        ∀ q, (s.pc q).beforeHook = true → (s'.pc q).beforeHook = true := by
  cases hs with
  | @created p o pid c pc unlocked missing memory =>
    rcases (linked_put (hc.table_create pid)).mp h with rfl | ⟨hl,-⟩
    · right
      have howner : (s.createMailbox hash32 p pid c).owner s.mailboxesCreated = pid :=
        owner_create_self s pid
      rw [howner]
      refine ⟨rfl,creates_eq_some_iff.mpr ⟨p,o,c,rfl,pc,missing,memory⟩,?_⟩
      intro q hq
      rw [createMailbox,setPc_pc]
      by_cases hqp : q = p
      · subst q
        rw [Function.update_self]
        rfl
      · rw [Function.update_of_ne hqp]
        exact hq
    · exact .inl hl
  | unlinked => exact .inl ((linked_remove hc.table).mp h).1
  | _ => exact .inl h

/-- The parts of the system that the covering of its mailboxes rests on. -/
structure TidyInvariant (hash32 : Pid → ℕ) (s : System) : Prop where
  consistent : Consistent hash32 s
  inBounds : InBounds s
  coherent : Registry.Coherent s.registry
  threads : ThreadInvariant s
  removes : ∀ q m, (s.pc q).RemovesMailbox m → s.processes.group q = some (s.owner m)
  covered : ∀ m, s.table.Linked m → s.Covered m

theorem tidyInvariant_initial : TidyInvariant hash32 (initial sig) where
  consistent := consistent_initial sig
  inBounds := inBounds_initial
  coherent := .empty (fun _ ⟨_,h⟩ => by cases h) (fun _ => rfl) (fun _ => rfl) (fun _ => rfl)
  threads := threadInvariant_initial
  removes q m h := False.elim h
  covered m h := by obtain ⟨b,hb⟩ := h; cases hb

/-- Only a deletion thread of the mailbox flushes it. -/
lemma underway_of_flush (hc : Consistent hash32 s) {xs : List MessagePtr}
    (flush : s.outcome act = some (m,.flushed xs)) : s.DeletionUnderway m := by
  obtain ⟨⟨a,n,cs⟩,running,he⟩ := Option.map_eq_some_iff.mp flush
  obtain ⟨rfl,hpr⟩ := Prod.mk.inj he
  have hlocked := Mailbox.criticalSection_locked a (s.signalPending a) (s.mailboxes n) cs
  rw [show _ = Progress.flushed xs from hpr] at hlocked
  have hflushing := hlocked.flushed_when.1
  have called := (running_eq_some_iff.mp running).2
  cases a with
  | kthread k =>
    obtain ⟨d,hd,hcall⟩ := Option.bind_eq_some_iff.mp called
    exact .inr ⟨k,d,hd,congrArg DeletionThread.mailbox (d.call_eq hcall)⟩
  | task p =>
    obtain ⟨k,hpc⟩ := Pc.call_eq called
    have hfits := hc.fits p
    rw [hpc] at hfits
    rcases hflushing with rfl | rfl <;> cases k with
    | added | putBack => obtain ⟨y,hy⟩ := hfits; cases hy
    | removed => rcases hfits with ⟨block,hcs⟩ | hcs <;> cases hcs
    | claimed | refused | stopped | unclaimed | delivered | hook => cases hfits

lemma removes_ne {c : Pc} (h : c.RemovesMailbox m) : c ≠ .absent ∧ c ≠ .zombie := by
  constructor <;> rintro rfl <;> exact h

lemma removes_mailbox {c : Pc} (h : c.RemovesMailbox m) : c.mailbox = some m := by
  cases c with
  | onMailbox n cs k =>
    cases k with
    | hook group => exact congrArg some h
    | _ => exact False.elim h
  | startDeletion n group => exact congrArg some h
  | _ => exact False.elim h

/-- A process that has just been started is attended to. -/
lemma attended_of_birth (hs : Stepped hash32 s act s')
    (before : s.processes.births p = 0) (after : s'.processes.births p ≠ 0) : s'.Attended p := by
  rcases births_stepped hs p with he | ⟨hgroup,hpc,-⟩
  · exact absurd (he.trans before) after
  · exact ⟨p,hgroup,by rw [hpc]; rfl⟩

/-- A process that is gone stays gone until its pid is given to a new one. -/
lemma gone_stepped (hs : Stepped hash32 s act s') (gone : s.Gone p)
    (births : s'.processes.births p = s.processes.births p) : s'.Gone p := by
  refine ⟨births ▸ gone.1,?_⟩
  intro q hq
  -- the threads of the process are zombies, and none of them moves and stays
  have hzombie : ∀ c, s.pc q = c → c ≠ .zombie → s.processes.group q ≠ some p := by
    rintro c rfl hne hgroup
    exact hne (gone.2 q hgroup)
  by_cases moves : act.moves = some q
  · exfalso
    cases hs.processStep with
    | same processes live =>
      rw [processes] at hq
      obtain ⟨hlive,-⟩ := live q moves
      refine hzombie _ rfl ?_ hq
      intro hz
      rw [hz] at hlive
      cases hlive
    | @started r uid action absent free processes =>
      rw [action] at moves
      cases moves
      rw [processes,Processes.group_newProcess,Function.update_self] at hq
      cases hq
      rw [processes] at births
      have hone : s.processes.births p + 1 = s.processes.births p :=
        (Function.update_self _ _ _).symm.trans births
      omega
    | @cloned parent r last task action caller alive absent free processes =>
      rw [action] at moves
      cases moves
      rw [processes,Processes.group_clone,Function.update_self] at hq
      have hparent := gone.2 parent ((Processes.group_of_task alive).trans hq)
      rw [caller] at hparent
      cases hparent
    | signalled action =>
      rw [action] at moves
      cases moves
    | @exits r group moves' pc processes =>
      rw [moves] at moves'
      cases moves'
      rw [processes,Processes.group_setExiting] at hq
      exact hzombie _ pc nofun (by cases group <;> exact hq)
    | decremented moves' pc processes =>
      rw [moves] at moves'
      cases moves'
      rw [processes] at hq
      exact hzombie _ pc nofun hq
    | died moves' pc processes =>
      rw [moves] at moves'
      cases moves'
      rw [processes,Processes.group_die] at hq
      exact hzombie _ pc nofun hq
    | released moves' pc may processes =>
      rw [moves] at moves'
      cases moves'
      rw [processes,Processes.group_release,Function.update_self] at hq
      cases hq
  · rw [hs.pc_of_ne moves]
    rw [hs.group_of_ne moves] at hq
    exact gone.2 q hq

lemma ThreadInvariant.tgid_eq (inv : ThreadInvariant s) (h : s.pc q ≠ .absent) :
    s.processes.group q = some (s.processes.tgid q) := by
  obtain ⟨g,hg⟩ := inv.exists_group h
  rw [hg,Processes.tgid_of_group hg]

/-- Every task is about to remove the mailbox of its own process only. -/
def RemovesOwn (s : System) : Prop :=
  ∀ q m, (s.pc q).RemovesMailbox m → s.processes.group q = some (s.owner m)

lemma RemovesOwn.stepped (own : s.RemovesOwn) (hc : Consistent hash32 s) (bounds : InBounds s)
    (threads : ThreadInvariant s) (hs : Stepped hash32 s act s') : s'.RemovesOwn := by
  intro q m h
  rcases System.removes_stepped hs h with hold | ⟨⟨group,hpc⟩,hfound⟩
  · have hlt := bounds.tasks q m (removes_mailbox hold)
    rw [owner_stepped hs hlt,← own q m hold]
    exact threads.group_kept hs (removes_ne hold).1 (removes_ne hold).2
  · obtain ⟨hlinked,howner⟩ := linked_of_get hfound
    have hbefore : (s.pc q).beforeHook = true := by rw [hpc]; rfl
    have howner' : s.owner m = s.processes.tgid q := howner
    rw [owner_stepped hs (hc.linked_lt m hlinked),howner',
      ← threads.tgid_eq (beforeHook_ne hbefore).1]
    exact threads.group_kept hs (beforeHook_ne hbefore).1 (beforeHook_ne hbefore).2

theorem removesOwn_of_run (h : Run (step hash32) (initial sig) tr s) : s.RemovesOwn := by
  induction h with
  | refl =>
    intro q m h
    exact False.elim h
  | snoc prior taken ih =>
    exact ih.stepped (consistent_of_run prior) (inBounds_of_run prior)
      (threadInvariant_of_run prior) (step_stepped taken)

variable (inv : TidyInvariant hash32 s)
include inv

/-- A thread attends to a mailbox until it is through its hook, which then has begun the
deletion. -/
lemma TidyInvariant.attended_stepped (hs : Stepped hash32 s act s') (tidy : Tidy hash32 s act)
    (starts : act.startsThreads = true) (linked : s.table.Linked m)
    (h : s.Attended (s.owner m)) : s'.Attended (s.owner m) ∨ s'.DeletionUnderway m := by
  -- a thread that does not move goes on attending
  have hstill : ∀ q, s.processes.group q = some (s.owner m) → (s.pc q).beforeHook = true →
      (s'.pc q).beforeHook = true → s'.Attended (s.owner m) := by
    intro q hq hold hnew
    refine ⟨q,?_,hnew⟩
    rw [inv.threads.group_kept hs (beforeHook_ne hold).1 (beforeHook_ne hold).2,hq]
  obtain ⟨q,hq,hbefore⟩ := h
  have htgid := Processes.tgid_of_group hq
  rcases hook_stepped hs hbefore with hafter | hskips | ⟨n,hfound,hremoves⟩ | hmissing
  · exact .inl (hstill q hq hbefore hafter)
  · rcases tidy.skips q hskips with ⟨q',hne,hq',hbefore'⟩ | hunderway
    · left
      rw [htgid] at hq'
      refine hstill q' hq' hbefore' ?_
      rw [hs.pc_of_ne]
      · exact hbefore'
      · rw [moves_of_skips hskips]
        exact fun he => hne (Option.some.inj he).symm
    · exact .inr (underway_kept inv.consistent hs starts (hunderway m linked htgid.symm))
  · obtain ⟨hlinked,howner⟩ := linked_of_get hfound
    rw [htgid] at howner
    rw [inv.consistent.table.unique linked hlinked howner.symm]
    exact .inr (.inl ⟨q,hremoves⟩)
  · rw [htgid] at hmissing
    exact absurd rfl (owner_ne_of_get inv.consistent.table hmissing linked)

lemma TidyInvariant.covered_stepped (hs : Stepped hash32 s act s') (tidy : Tidy hash32 s act)
    (starts : act.startsThreads = true) (linked : s'.table.Linked m) : s'.Covered m := by
  intro hborn
  rcases linked_stepped inv.consistent hs linked with hold | ⟨-,hcreates,hkeeps⟩
  · have howner := owner_stepped hs (inv.consistent.linked_lt m hold)
    rw [howner] at hborn ⊢
    by_cases hbirth : s.processes.births (s.owner m) = 0
    · exact .inl (attended_of_birth hs hbirth hborn)
    · rcases inv.covered m hold hbirth with hattended | hunderway
      · exact inv.attended_stepped hs tidy starts hold hattended
      · exact .inr (underway_kept inv.consistent hs starts hunderway)
  · by_cases hbirth : s.processes.births (s'.owner m) = 0
    · exact .inl (attended_of_birth hs hbirth hborn)
    · obtain ⟨q,hq,hbefore⟩ := tidy.creates _ hcreates hbirth
      refine .inl ⟨q,?_,?_⟩
      · rw [inv.threads.group_kept hs (beforeHook_ne hbefore).1 (beforeHook_ne hbefore).2,hq]
      · exact hkeeps q hbefore

theorem TidyInvariant.stepped (hs : Stepped hash32 s act s') (tidy : Tidy hash32 s act)
    (starts : act.startsThreads = true) : TidyInvariant hash32 s' where
  consistent := inv.consistent.stepped hs
  inBounds := inv.inBounds.stepped inv.consistent hs
  coherent := coherent_stepped inv.consistent inv.coherent hs
  threads := inv.threads.stepped hs
  removes := RemovesOwn.stepped inv.removes inv.consistent inv.inBounds inv.threads hs
  covered _ := inv.covered_stepped hs tidy starts

/-- A linked mailbox whose process is gone waits for a deletion thread. -/
theorem TidyInvariant.deletionPending (linked : s.table.Linked m) (gone : s.Gone (s.owner m)) :
    s.DeletionPending m := by
  rcases inv.covered m linked gone.1 with ⟨q,hq,hbefore⟩ | ⟨q,hq⟩ | ⟨k,d,hd,rfl⟩
  · exact absurd (gone.2 q hq) (beforeHook_ne hbefore).2
  · exact absurd (gone.2 q (inv.removes q m hq)) (removes_ne hq).2
  · refine ⟨k,d,hd,rfl,(DeletionPc.pending_iff d.pc).mpr fun hunlinked => ?_⟩
    have hr : s.registry.retirer k = some (d.mailbox,d.pc.phase) :=
      congrArg (Option.map DeletionThread.retirer) hd
    exact inv.coherent.unlinked hr hunlinked linked

omit inv in
theorem tidyInvariant_of_run (h : Run (step hash32) (initial sig) tr s)
    (starts : ∀ x ∈ tr, x.2.startsThreads = true) (tidy : ∀ x ∈ tr, Tidy hash32 x.1 x.2) :
    TidyInvariant hash32 s :=
  h.invariant_of_guard (C := fun s act => act.startsThreads = true ∧ Tidy hash32 s act)
    tidyInvariant_initial
    (fun _ _ _ hs hc ht => hs.stepped (step_stepped ht) hc.2 hc.1)
    fun x hx => ⟨starts x hx,tidy x hx⟩

/-- The process is gone, and of its mailboxes none is left and none is being made. -/
structure Cleaned (s : System) (p : Pid) : Prop where
  gone : s.Gone p
  unlinked : ∀ m, s.table.Linked m → s.owner m ≠ p

lemma TidyInvariant.cleaned (gone : s.Gone p)
    (finished : ∀ m, s.owner m = p → ¬ s.DeletionPending m) : s.Cleaned p where
  gone := gone
  unlinked m hl ho := finished m ho (inv.deletionPending hl (ho ▸ gone))

omit inv in
lemma Gone.not_attended (gone : s.Gone p) : ¬ s.Attended p := by
  rintro ⟨q,hq,hbefore⟩
  exact (beforeHook_ne hbefore).2 (gone.2 q hq)

lemma TidyInvariant.cleaned_stepped (hs : Stepped hash32 s act s') (tidy : Tidy hash32 s act)
    (cleaned : s.Cleaned p) (births : s'.processes.births p = s.processes.births p) :
    s'.Cleaned p where
  gone := gone_stepped hs cleaned.gone births
  unlinked m hl ho := by
    rcases linked_stepped inv.consistent hs hl with hold | ⟨-,hcreates,-⟩
    · rw [owner_stepped hs (inv.consistent.linked_lt m hold)] at ho
      exact cleaned.unlinked m hold ho
    · rw [ho] at hcreates
      exact cleaned.gone.not_attended (tidy.creates p hcreates cleaned.gone.1)

omit inv in
lemma births_run (h : Run (step hash32) s tr s') (p : Pid) :
    s.processes.births p ≤ s'.processes.births p := by
  induction h with
  | refl => exact Nat.le_refl _
  | snoc prior taken ih => exact Nat.le_trans ih (births_le (step_stepped taken) p)

/-- As long as the pid is not given to a new process, no mailbox comes back. -/
lemma TidyInvariant.cleaned_run (h : Run (step hash32) s tr s')
    (starts : ∀ x ∈ tr, x.2.startsThreads = true) (tidy : ∀ x ∈ tr, Tidy hash32 x.1 x.2)
    (cleaned : s.Cleaned p) (births : s'.processes.births p = s.processes.births p) :
    TidyInvariant hash32 s' ∧ s'.Cleaned p := by
  induction h with
  | refl => exact ⟨inv,cleaned⟩
  | @snoc tr t act t' prior taken ih =>
    have hs := step_stepped taken
    have hle := births_run prior p
    have hle' := births_le hs p
    obtain ⟨hinv,hcleaned⟩ := ih (fun x hx => starts x (List.mem_append_left _ hx))
      (fun x hx => tidy x (List.mem_append_left _ hx)) (by omega)
    have htidy := tidy (t,act) (by simp)
    exact ⟨hinv.stepped hs htidy (starts (t,act) (by simp)),
      hinv.cleaned_stepped hs htidy hcleaned (by omega)⟩

/-- The same at a step in the middle of such a run, around which no process is born either. -/
lemma TidyInvariant.cleaned_before {t u : System} {before after : List (System × Action)}
    (hbefore : Run (step hash32) s before t) (taken : step hash32 t act = some u)
    (hafter : Run (step hash32) u after s') (starts : ∀ x ∈ before, x.2.startsThreads = true)
    (tidy : ∀ x ∈ before, Tidy hash32 x.1 x.2) (cleaned : s.Cleaned p)
    (births : s'.processes.births p = s.processes.births p) : TidyInvariant hash32 t ∧ t.Cleaned p ∧
      u.processes.births p = t.processes.births p ∧
      s'.processes.births p = u.processes.births p := by
  have hle := births_run hbefore p
  have hle' := births_le (step_stepped taken) p
  have hle'' := births_run hafter p
  obtain ⟨hinv,hcleaned⟩ := inv.cleaned_run hbefore starts tidy cleaned (by omega)
  refine ⟨hinv,hcleaned,?_,?_⟩
  · omega
  · omega

/-- Nobody is in a lookup on a mailbox of the process. -/
lemma TidyInvariant.no_lookup (cleaned : s.Cleaned p) {n : ℕ}
    (locks : (s.pc q).role.Locks n) : s.owner n ≠ p :=
  cleaned.unlinked n (inv.coherent.locks (i := q) locks).2

lemma TidyInvariant.not_gets (cleaned : s.Cleaned p) (gets : GetsMailbox s act s' m) :
    s.owner m ≠ p := by
  obtain ⟨q,o,c,-,hpc | ⟨cs,hpc⟩,-⟩ := gets
  · exact inv.no_lookup (q := q) cleaned (by rw [hpc]; rfl)
  · exact inv.no_lookup (q := q) cleaned (by rw [hpc]; rfl)

omit inv in
/-- Where a send to a process can be that never gets a mailbox. -/
def Refused (p : Pid) : Pc → Prop
  | .validate pid _ => pid = p
  | .lookup pid _ => pid = p
  | .user last => last ≠ some .ok
  | _ => False

omit inv in
lemma refused_stepped (hs : Stepped hash32 s act s') (tidy : Tidy hash32 s act)
    (cleaned : s.Cleaned p) (refused : Refused p (s.pc q))
    (only : act.moves = some q → ∃ o, act = .run q o) : Refused p (s'.pc q) := by
  by_cases moves : act.moves = some q
  · obtain ⟨o,rfl⟩ := only moves
    cases hs with
    | valid pc =>
      rw [pc] at refused
      rw [setPc_self]
      exact refused
    | invalid | outOfMemory =>
      rw [setPc_self]
      nofun
    | found pc unlocked found =>
      rw [pc] at refused
      obtain ⟨hlinked,howner⟩ := linked_of_get found
      exact absurd (howner.trans refused) (cleaned.unlinked _ hlinked)
    | @created _ _ pid c pc unlocked missing memory =>
      rw [pc] at refused
      obtain rfl : pid = p := refused
      have hcreates : s.creates hash32 (.run q o) = some pid :=
        creates_eq_some_iff.mpr ⟨q,o,c,rfl,pc,missing,memory⟩
      exact absurd (tidy.creates _ hcreates cleaned.gone.1) cleaned.gone.not_attended
    | stays pc | returned pc | refused pc | granted pc | messageCreated pc | messageFailed pc
    | countFault pc | countCopied pc | copied pc | copyFault pc | destroyed pc | lastThread pc
    | otherThread pc | removalFound pc | removalMissing pc | deletionStarted pc | deletionFailed pc
    | realExit pc | decrementLive pc | die pc =>
      rw [pc] at refused
      exact False.elim refused
  · rw [hs.pc_of_ne moves]
    exact refused

/-- A send to the process that comes now is told so. -/
lemma TidyInvariant.refused_run (h : Run (step hash32) s tr s')
    (starts : ∀ x ∈ tr, x.2.startsThreads = true) (tidy : ∀ x ∈ tr, Tidy hash32 x.1 x.2)
    (cleaned : s.Cleaned p) (births : s'.processes.births p = s.processes.births p)
    (refused : Refused p (s.pc q)) (only : ∀ x ∈ tr, x.2.moves = some q → ∃ o, x.2 = .run q o) :
    Refused p (s'.pc q) := by
  induction h with
  | refl => exact refused
  | @snoc tr t act t' prior taken ih =>
    have hs := step_stepped taken
    have hle := births_run prior p
    have hle' := births_le hs p
    have hstarts : ∀ x ∈ tr, x.2.startsThreads = true :=
      fun x hx => starts x (List.mem_append_left _ hx)
    have htidy : ∀ x ∈ tr, Tidy hash32 x.1 x.2 := fun x hx => tidy x (List.mem_append_left _ hx)
    obtain ⟨-,hcleaned⟩ := inv.cleaned_run prior hstarts htidy cleaned (by omega)
    exact refused_stepped hs (tidy (t,act) (by simp)) hcleaned
      (ih hstarts htidy (by omega) fun x hx => only x (List.mem_append_left _ hx))
      (only (t,act) (by simp))

omit inv in
/-- A mailbox whose process is gone is waited for by a deletion thread; and once there is no such
thread, the process has no mailbox in the table, none is made or handed out for it, and every new
send to it fails, up to the birth of another process with its pid. -/
structure NoOrphans (hash32 : Pid → ℕ) (s : System) (tr : List (System × Action)) (s' : System) :
    Prop where
  pending : ∀ m, s.table.Linked m → s.Gone (s.owner m) → s.DeletionPending m
  unlinked : ∀ p, s.Gone p → (∀ m, s.owner m = p → ¬ s.DeletionPending m) →
    s'.processes.births p = s.processes.births p → ∀ m, s'.table.Linked m → s'.owner m ≠ p
  created : ∀ p, s.Gone p → (∀ m, s.owner m = p → ¬ s.DeletionPending m) →
    s'.processes.births p = s.processes.births p → ∀ x ∈ tr, x.1.creates hash32 x.2 ≠ some p ∧
      ∀ t m, step hash32 x.1 x.2 = some t → GetsMailbox x.1 x.2 t m → x.1.owner m ≠ p
  refused : ∀ p, s.Gone p → (∀ m, s.owner m = p → ¬ s.DeletionPending m) →
    s'.processes.births p = s.processes.births p → ∀ t q len block before after,
      tr = before ++ (t,.enter q (.sendMessage p len block)) :: after →
      (∀ x ∈ after, x.2.moves = some q → ∃ o, x.2 = .run q o) → s'.pc q ≠ .user (some .ok)

omit inv in
/-- In every run in which `kthread_run` succeeds, no mailbox is made for a process without a
thread before its exit hook, and no thread is the last to come to its hook and skips the removal
of a mailbox, no mailbox is orphaned. -/
theorem noOrphans_of_tidy (reached : Run (step hash32) (initial sig) tr s)
    (run : Run (step hash32) s tr' s') (starts : ∀ x ∈ tr ++ tr', x.2.startsThreads = true)
    (tidy : ∀ x ∈ tr ++ tr', Tidy hash32 x.1 x.2) : NoOrphans hash32 s tr' s' := by
  have inv : TidyInvariant hash32 s :=
    tidyInvariant_of_run reached (fun x hx => starts x (List.mem_append_left _ hx))
      fun x hx => tidy x (List.mem_append_left _ hx)
  have hstarts : ∀ x ∈ tr', x.2.startsThreads = true :=
    fun x hx => starts x (List.mem_append_right _ hx)
  have htidy : ∀ x ∈ tr', Tidy hash32 x.1 x.2 := fun x hx => tidy x (List.mem_append_right _ hx)
  constructor
  · exact fun m => inv.deletionPending
  · intro p gone finished births
    exact (inv.cleaned_run run hstarts htidy (inv.cleaned gone finished) births).2.unlinked
  · intro p gone finished births x hx
    obtain ⟨before,after,u,rfl,hbefore,htaken,hafter⟩ := run.split hx
    obtain ⟨hinv,hcleaned,-,-⟩ := inv.cleaned_before hbefore htaken hafter
      (fun y hy => hstarts y (List.mem_append_left _ hy))
      (fun y hy => htidy y (List.mem_append_left _ hy)) (inv.cleaned gone finished) births
    refine ⟨fun hcreates => ?_,fun t m ht hgets => hinv.not_gets hcleaned hgets⟩
    exact hcleaned.gone.not_attended ((htidy x hx).creates p hcreates hcleaned.gone.1)
  · rintro p gone finished births t q len block before after rfl only hok
    obtain ⟨u,hbefore,htaken,hafter⟩ := run.split_at
    obtain ⟨hinv,hcleaned,hsame,hsame'⟩ := inv.cleaned_before hbefore htaken hafter
      (fun y hy => hstarts y (List.mem_append_left _ hy))
      (fun y hy => htidy y (List.mem_append_left _ hy)) (inv.cleaned gone finished) births
    have hs := step_stepped htaken
    have hlast := htidy _ (List.mem_append_right before (List.mem_cons_self ..))
    have hnext := hinv.stepped hs hlast
      (hstarts _ (List.mem_append_right before (List.mem_cons_self ..)))
    have hentered : Refused p (u.pc q) := by
      cases hs
      rw [setPc_self]
      rfl
    have hrefused := hnext.refused_run hafter
      (fun y hy => hstarts y (List.mem_append_right before (List.mem_cons_of_mem _ hy)))
      (fun y hy => htidy y (List.mem_append_right before (List.mem_cons_of_mem _ hy)))
      (hinv.cleaned_stepped hs hlast hcleaned hsame) hsame' hentered only
    rw [hok] at hrefused
    exact hrefused rfl

omit inv in
/-- The thread `q` of process `p` is still to come to its hook, and the step is about `p`. -/
lemma tidy_of_attending (p q : Pid) (h : (s.creates hash32 act = none ∧ s.skipsRemoval act = none) ∨
    s.processes.group q = some p ∧ (s.pc q).beforeHook = true ∧
      (s.creates hash32 act).all (fun r => decide (r = p)) = true ∧
      (s.skipsRemoval act).all (fun r => decide (r ≠ q ∧ s.processes.tgid r = p)) = true) :
    Tidy hash32 s act := by
  rcases h with ⟨hcreates,hskips⟩ | ⟨hq,hbefore,hcreates,hskips⟩
  · constructor
    · intro r hr
      rw [hcreates] at hr
      cases hr
    · intro r hr
      rw [hskips] at hr
      cases hr
  · constructor
    · intro r hr _
      rw [hr] at hcreates
      obtain rfl : r = p := of_decide_eq_true hcreates
      exact ⟨q,hq,hbefore⟩
    · intro r hr
      rw [hr] at hskips
      obtain ⟨hne,rfl⟩ : r ≠ q ∧ s.processes.tgid r = p := of_decide_eq_true hskips
      exact .inl ⟨q,hne.symm,hq,hbefore⟩

omit inv in
/-- Both threads of process 1001 exit, one after the other, and its mailbox waits for its deletion
thread. -/
theorem noOrphans_after_exits : ∃ (tr : List (System × Action)) (s : System),
    s.table.Linked 0 ∧ s.pc 1001 = .zombie ∧ s.pc 1002 = .zombie ∧
      NoOrphans goldenHash32 s [] s ∧ Run (step goldenHash32) (initial fun _ => false) tr s := by
  obtain ⟨tr,s,hrun,htest⟩ := exists_run_of_execute (step goldenHash32) (initial fun _ => false)
    ([.newProcess 1001 1000,.clone 1001 1002,.enter 1001 (.sendMessage 1001 0 false)] ++
      runs 1001 6 ++ [.exit 1002] ++ runs 1002 4 ++ [.exit 1001] ++ runs 1001 7 ++
      runsDeletion 0 2)
    (fun tr s => tr.all (fun x => x.2.startsThreads &&
        decide ((x.1.creates goldenHash32 x.2 = none ∧ x.1.skipsRemoval x.2 = none) ∨
          x.1.processes.group 1001 = some 1001 ∧ (x.1.pc 1001).beforeHook = true ∧
            (x.1.creates goldenHash32 x.2).all (fun r => decide (r = 1001)) = true ∧
            (x.1.skipsRemoval x.2).all
              (fun r => decide (r ≠ 1001 ∧ x.1.processes.tgid r = 1001)) = true)) &&
      decide (s.get goldenHash32 1001 = some 0 ∧ s.pc 1001 = .zombie ∧ s.pc 1002 = .zombie))
    (by decide +kernel)
  rw [Bool.and_eq_true] at htest
  obtain ⟨hall,hend⟩ := htest
  obtain ⟨hfound,hzombie,hzombie'⟩ := of_decide_eq_true hend
  have hsteps : ∀ x ∈ tr ++ [], x.2.startsThreads = true ∧ Tidy goldenHash32 x.1 x.2 := by
    rw [List.append_nil]
    intro x hx
    obtain ⟨hstarts,htidy⟩ := (Bool.and_eq_true _ _).mp (List.all_eq_true.mp hall x hx)
    exact ⟨hstarts,tidy_of_attending 1001 1001 (of_decide_eq_true htidy)⟩
  exact ⟨tr,s,(linked_of_get hfound).1,hzombie,hzombie',
    noOrphans_of_tidy hrun .refl (fun x hx => (hsteps x hx).1) fun x hx => (hsteps x hx).2,hrun⟩

omit inv in
/-- Process 1001 finds process 1002 valid. Then 1002 exits and finds no mailbox to remove; then
1001 goes on, makes the mailbox of 1002 and sends its message. -/
theorem exists_orphan : ∃ (tr : List (System × Action)) (s : System),
    Run (step goldenHash32) (initial fun _ => false) tr s ∧
      (∀ x ∈ tr, x.2.regular = true) ∧ ¬ NoOrphans goldenHash32 s [] s := by
  obtain ⟨tr,s,hrun,htest⟩ := exists_run_of_execute (step goldenHash32) (initial fun _ => false)
    ([.newProcess 1001 1000,.newProcess 1002 1000,.enter 1001 (.sendMessage 1002 0 false)] ++
      runs 1001 1 ++ [.exit 1002] ++ runs 1002 5 ++ runs 1001 5)
    (fun tr s => tr.all (fun x => x.2.regular) &&
      decide (s.get goldenHash32 1002 = some 0 ∧ s.processes.births 1002 ≠ 0 ∧
        s.processes.threads 1002 = 1 ∧ s.processes.group 1002 = some 1002 ∧
        s.pc 1002 = .zombie ∧ s.deletionsStarted = 0))
    (by decide +kernel)
  rw [Bool.and_eq_true] at htest
  obtain ⟨hregular,hend⟩ := htest
  obtain ⟨hfound,hborn,hone,hgroup,hzombie,hnone⟩ := of_decide_eq_true hend
  obtain ⟨hlinked,howner⟩ := linked_of_get hfound
  have hgone : s.Gone (s.owner 0) := by
    rw [howner]
    refine ⟨hborn,fun q hq => ?_⟩
    rw [(threadInvariant_of_run hrun).eq_of_threads hone hgroup hq]
    exact hzombie
  refine ⟨tr,s,hrun,List.all_eq_true.mp hregular,fun h => ?_⟩
  obtain ⟨k,d,hd,-⟩ := h.pending 0 hlinked hgone
  have hlt := (consistent_of_run hrun).deletions_lt k (by rw [hd]; nofun)
  omega

end System
end ProcessMessagePassing
