import ProcessMessagePassing.Kernel.Consistent
import ProcessMessagePassing.Mailbox.Drain

/-! One mailbox out of the system. Every run of the system is, seen from a mailbox, a run of that
mailbox alone with the tasks and the deletion threads as its callers. -/
namespace ProcessMessagePassing
open Concurrency HashTable

/-- The thread that an action lets take a step. -/
def Action.actor : Action → Option Actor
  | .run p _ => some (.task p)
  | .runDeletion k _ => some (.kthread k)
  | _ => none

/-- The action sends a signal. -/
def Action.signals : Action → Bool
  | .signal _ => true
  | _ => false

/-- The task that an action moves. -/
def Action.moves : Action → Option Pid
  | .newProcess p _ => some p
  | .clone _ p => some p
  | .enter p _ => some p
  | .exit p => some p
  | .exitGroup p => some p
  | .killed p => some p
  | .reap p => some p
  | .run p _ => some p
  | _ => none

lemma Action.moves_of_actor {act : Action} {p : Pid} (h : act.actor = some (.task p)) :
    act.moves = some p := by
  cases act with
  | run q o =>
    cases h
    rfl
  | _ => cases h

/-- The mailbox that a task is in a function of, and where in it. -/
def Pc.call : Pc → Option (ℕ × CallState MessagePtr)
  | .onMailbox m cs _ => some (m,cs)
  | _ => none

def DeletionThread.call (d : DeletionThread) : Option (ℕ × CallState MessagePtr) :=
  match d.pc with
  | .destroying cs => some (d.mailbox,cs)
  | _ => none

lemma Pc.call_eq {c : Pc} {m : ℕ} {cs : CallState MessagePtr} (h : c.call = some (m,cs)) :
    ∃ k, c = .onMailbox m cs k := by
  cases c with
  | onMailbox n cs' k =>
    cases h
    exact ⟨k,rfl⟩
  | _ => cases h

lemma DeletionThread.call_eq {d : DeletionThread} {m : ℕ} {cs : CallState MessagePtr}
    (h : d.call = some (m,cs)) : d = ⟨m,.destroying cs⟩ := by
  obtain ⟨n,pc⟩ := d
  cases pc with
  | destroying cs' =>
    cases h
    rfl
  | _ => cases h

/-- The mailbox that a task works on. -/
def Pc.mailbox : Pc → Option ℕ
  | .onMailbox m _ _ => some m
  | .checkExiting m _ => some m
  | .createMessage m _ _ => some m
  | .copyCount m _ _ => some m
  | .copyToUser m _ _ => some m
  | .startDeletion m _ => some m
  | _ => none

/-- A thread that comes to a mailbox comes to the start of one of its functions. -/
def Starts (call : Option (ℕ × CallState MessagePtr)) : Prop :=
  ∀ m cs, call = some (m,cs) → ∃ c : Call MessagePtr, cs = c.start

lemma starts_none : Starts none := nofun

lemma starts_start (m : ℕ) (c : Call MessagePtr) : Starts (some (m,c.start)) := by
  intro n cs h
  cases h
  exact ⟨c,rfl⟩

lemma starts_begin (m : ℕ) (c : Syscall) : Starts (c.begin m).call := by
  cases c with
  | recieveMessage ptrs block => exact starts_start m (.remove block)
  | sendMessage | manageMailbox => exact starts_none

lemma starts_resume (m : ℕ) (r : Ret MessagePtr) (k : Cont) : Starts (k.resume m r).call := by
  cases k with
  | claimed fresh c =>
    cases fresh with
    | true => exact starts_begin m c
    | false => exact starts_none
  | removed ptrs =>
    cases r with
    | code c => exact starts_start m .unclaim
    | message e => exact starts_none
  | added | putBack | stopped => exact starts_start m .unclaim
  | refused | unclaimed | delivered | hook => exact starts_none

/-- The kinds of points where a call goes on when it has got its mailbox. -/
def Pc.begins : Pc → Bool
  | .createMessage _ _ _ => true
  | .onMailbox _ _ (.removed _) => true
  | .copyCount _ _ _ => true
  | _ => false

/-- A call does not go on at any other point. -/
lemma begin_ne {m : ℕ} {pc : Pc} (c : Syscall) (other : pc.begins = false) : c.begin m ≠ pc := by
  rintro rfl
  cases c <;> cases other

/-- The kinds of points where a task comes back from a mailbox function. -/
def Pc.resumes : Pc → Bool
  | .user _ => true
  | .onMailbox _ _ (.removed _) => true
  | .onMailbox _ _ (.unclaimed _) => true
  | .checkExiting _ _ => true
  | .createMessage _ _ _ => true
  | .copyCount _ _ _ => true
  | .copyToUser _ _ _ => true
  | .destroyMessage _ => true
  | .startDeletion _ _ => true
  | _ => false

lemma resume_ne {m : ℕ} {pc : Pc} (r : Ret MessagePtr) (k : Cont) (other : pc.resumes = false) :
    k.resume m r ≠ pc := by
  rintro rfl
  cases k with
  | claimed fresh c =>
    cases fresh with
    | true => cases c <;> cases other
    | false => cases other
  | removed ptrs => cases r <;> cases other
  | added | refused | putBack | stopped | unclaimed | delivered | hook => cases other

lemma mailbox_begin (m : ℕ) (c : Syscall) : (c.begin m).mailbox = some m := by
  cases c <;> rfl

lemma mailbox_resume (m : ℕ) (r : Ret MessagePtr) (k : Cont) {n : ℕ}
    (h : (k.resume m r).mailbox = some n) : n = m := by
  cases k with
  | claimed fresh c =>
    cases fresh with
    | true =>
      rw [Cont.resume,mailbox_begin] at h
      exact (Option.some.inj h).symm
    | false => exact (Option.some.inj h).symm
  | removed ptrs => cases r <;> exact (Option.some.inj h).symm
  | added | putBack | stopped | hook => exact (Option.some.inj h).symm
  | refused | unclaimed | delivered => cases h

namespace MailboxSystem
variable {α μ : Type} [DecidableEq α] {u u' : MailboxSystem α μ} {a : α}

/-- A caller that was outside the mailbox comes to it, or stays outside. -/
lemma run_invoke (idle : u.calls a = none) (mailbox : u'.mailbox = u.mailbox)
    (signals : u'.signalPending = u.signalPending) (others : ∀ b, b ≠ a → u'.calls b = u.calls b)
    (start : ∀ cs, u'.calls a = some cs → ∃ c : Call μ, cs = c.start) :
    ∃ tr, Run step u tr u' := by
  obtain ⟨m,calls,pending⟩ := u
  obtain ⟨m',calls',pending'⟩ := u'
  dsimp only at idle mailbox signals others start
  subst mailbox signals
  have hcalls : calls' = Function.update calls a (calls' a) := by
    funext b
    by_cases hb : b = a
    · rw [hb,Function.update_self]
    · rw [Function.update_of_ne hb,others b hb]
  cases hc : calls' a with
  | none =>
    rw [hc,← idle,Function.update_eq_self] at hcalls
    rw [hcalls]
    exact ⟨[],.refl⟩
  | some cs =>
    obtain ⟨c,rfl⟩ := start cs hc
    rw [hc] at hcalls
    refine ⟨_,Run.single (a := .invoke a c) ?_⟩
    simp [step,idle,hcalls]

end MailboxSystem

namespace System
variable {hash32 : Pid → ℕ} {sig : Actor → Bool} {s s' t : System} {act : Action}
  {tr : List (System × Action)} {a : Actor} {m n : ℕ} {cs : CallState MessagePtr}

/-- The mailbox that a thread is in a function of, and where in it. -/
def call (s : System) : Actor → Option (ℕ × CallState MessagePtr)
  | .task p => (s.pc p).call
  | .kthread k => (s.deletions k).bind DeletionThread.call

lemma call_task {p : Pid} {c : Pc} (h : s.pc p = c) : s.call (.task p) = c.call :=
  congrArg Pc.call h

lemma call_kthread {k : ℕ} {d : DeletionThread} (h : s.deletions k = some d) :
    s.call (.kthread k) = d.call := by
  simp [call,h]

lemma setPc_self (s : System) (p : Pid) (c : Pc) : (s.setPc p c).pc p = c :=
  Function.update_self _ _ _

lemma call_setPc_self (s : System) (p : Pid) (c : Pc) : (s.setPc p c).call (.task p) = c.call :=
  call_task (setPc_self s p c)

lemma call_setPc_of_ne (s : System) {p : Pid} (c : Pc) (h : a ≠ .task p) :
    (s.setPc p c).call a = s.call a := by
  cases a with
  | task q =>
    have hq : q ≠ p := fun hq => h (congrArg Actor.task hq)
    exact call_task (Function.update_of_ne hq _ _)
  | kthread k => rfl

lemma call_setDeletion_self (s : System) (k : ℕ) (d : DeletionThread) :
    (s.setDeletion k d).call (.kthread k) = d.call :=
  call_kthread (Function.update_self _ _ _)

lemma call_setDeletion_of_ne (s : System) {k : ℕ} (d : DeletionThread) (h : a ≠ .kthread k) :
    (s.setDeletion k d).call a = s.call a := by
  cases a with
  | task q => rfl
  | kthread k' =>
    have hk : k' ≠ k := fun hk => h (congrArg Actor.kthread hk)
    exact congrArg (fun d => Option.bind d DeletionThread.call) (Function.update_of_ne hk _ _)

/-- The thread that an action runs, if it is in a function of a mailbox. -/
def running (s : System) (act : Action) : Option (Actor × ℕ × CallState MessagePtr) :=
  act.actor.bind fun a => (s.call a).map (Prod.mk a)

lemma running_eq (actor : act.actor = some a) (called : s.call a = some (m,cs)) :
    s.running act = some (a,m,cs) := by
  simp [running,actor,called]

lemma running_eq_some_iff :
    s.running act = some (a,m,cs) ↔ act.actor = some a ∧ s.call a = some (m,cs) := by
  constructor
  · intro h
    obtain ⟨b,hb,hmap⟩ := Option.bind_eq_some_iff.mp h
    obtain ⟨c,hc,he⟩ := Option.map_eq_some_iff.mp hmap
    cases he
    exact ⟨hb,hc⟩
  · exact fun h => running_eq h.1 h.2

/-- The mailbox that an action runs a section of, and how the section ends. -/
def outcome (s : System) (act : Action) : Option (ℕ × Progress MessagePtr) :=
  (s.running act).map fun (a,m,cs) =>
    (m,(Mailbox.criticalSection a (s.signalPending a) (s.mailboxes m) cs).2)

lemma outcome_eq {m' : Mailbox Actor MessagePtr} {pr : Progress MessagePtr}
    (running : s.running act = some (a,n,cs)) (locked : s.Section a n cs m' pr) :
    s.outcome act = some (n,pr) := by
  simp only [outcome,running,Option.map_some]
  rw [locked.result]

/-- What a step does to one mailbox: nothing, or it creates it, or it is one of its sections. -/
inductive MailboxStep (s : System) (act : Action) (s' : System) (m : ℕ) : Prop
  | same (mailbox : s'.mailboxes m = s.mailboxes m)
  | created {pid} (new : m = s.mailboxesCreated) (grown : s'.mailboxesCreated = m + 1)
      (mailbox : s'.mailboxes m = .create pid)
  | run {a cs pr} (running : s.running act = some (a,m,cs))
      (locked : s.Section a m cs (s'.mailboxes m) pr)

lemma mailboxStep_section {m' : Mailbox Actor MessagePtr} {pr : Progress MessagePtr}
    (actor : act.actor = some a) (called : s.call a = some (n,cs)) (h : s.Section a n cs m' pr)
    (mailboxes : s'.mailboxes = (s.setMailbox n m').mailboxes) (m : ℕ) :
    MailboxStep s act s' m := by
  by_cases hm : m = n
  · subst m
    rw [← setMailbox_self s n m',← mailboxes] at h
    exact .run (running_eq actor called) h
  · exact .same (by rw [mailboxes,setMailbox_of_ne s hm])

theorem Stepped.mailboxStep (h : Stepped hash32 s act s') (m : ℕ) : MailboxStep s act s' m := by
  cases h with
  | @created p o pid c =>
    by_cases hm : m = s.mailboxesCreated
    · subst m
      exact .created rfl rfl (setMailbox_self s _ _)
    · exact .same (setMailbox_of_ne s hm _)
  | stays pc locked =>
    refine mailboxStep_section ?_ (call_task pc) locked ?_ m <;> rfl
  | returned pc locked =>
    refine mailboxStep_section ?_ (call_task pc) locked ?_ m <;> rfl
  | destroyStays deletion locked | flushed deletion locked | deleted deletion locked =>
    refine mailboxStep_section ?_ (call_kthread deletion) locked ?_ m <;> rfl
  | _ => exact .same rfl

/-- No other task moves. -/
theorem Stepped.pc_of_ne (h : Stepped hash32 s act s') {p : Pid} (hp : act.moves ≠ some p) :
    s'.pc p = s.pc p := by
  cases h with
  | fatalSignal | signal | handle | ownerRead | stillValid | exited | unlinked | destroyStays
  | flushed | deleted => rfl
  | _ => exact Function.update_of_ne (fun he => hp (congrArg some he.symm)) _ _

theorem pc_of_run {p : Pid} (h : Run (step hash32) s tr s')
    (rests : ∀ x ∈ tr, x.2.moves ≠ some p) : s'.pc p = s.pc p := by
  induction h with
  | refl => rfl
  | @snoc tr t act t' prior taken ih =>
    rw [(step_stepped taken).pc_of_ne (rests (t,act) (by simp))]
    exact ih fun x hx => rests x (List.mem_append_left _ hx)

theorem extends_of_run (h : Run (step hash32) s tr s') : s.messages.Extends s'.messages := by
  induction h with
  | refl => exact .refl _
  | snoc prior taken ih => exact ih.trans (step_stepped taken).extends

/-- A task takes a section of a mailbox, and stays in its function or comes back from it. -/
structure TaskSection (s : System) (act : Action) (s' : System) (p : Pid) (m : ℕ)
    (cs : CallState MessagePtr) (k : Cont) (pr : Progress MessagePtr) : Prop where
  pc : s.pc p = .onMailbox m cs k
  moves : act.moves = some p
  locked : s.Section (.task p) m cs (s'.mailboxes m) pr
  messages : s'.messages = s.messages
  next : (∃ cs', pr.callState = some cs' ∧ s'.pc p = .onMailbox m cs' k) ∨
    ∃ r, pr = .returned r ∧ s'.pc p = k.resume m r

lemma taskSection_of_eq {p : Pid} {k : Cont} {m' : Mailbox Actor MessagePtr}
    {pr : Progress MessagePtr} (pc : s.pc p = .onMailbox m cs k) (moves : act.moves = some p)
    (locked : s.Section (.task p) m cs m' pr) (messages : s'.messages = s.messages)
    (mailboxes : s'.mailboxes = (s.setMailbox m m').mailboxes)
    (next : (∃ cs', pr.callState = some cs' ∧ s'.pc p = .onMailbox m cs' k) ∨
      ∃ r, pr = .returned r ∧ s'.pc p = k.resume m r) : TaskSection s act s' p m cs k pr where
  pc := pc
  moves := moves
  locked := by rwa [mailboxes,setMailbox_self]
  messages := messages
  next := next

/-- A task that is in a function of a mailbox takes its next section there. -/
theorem Stepped.task_section (h : Stepped hash32 s act s') {p : Pid}
    (running : s.running act = some (.task p,m,cs)) :
    ∃ k pr, TaskSection s act s' p m cs k pr := by
  obtain ⟨actor,called⟩ := running_eq_some_iff.mp running
  cases h with
  | newProcess | clone | enter | exit | exitGroup | fatalSignal | killed | reap | signal
  | handle => cases actor
  | ownerRead | stillValid | exited | unlinked | destroyStays | flushed | deleted => cases actor
  | stays pc locked stays =>
    cases actor
    rw [call_task pc] at called
    cases called
    exact ⟨_,_,taskSection_of_eq pc rfl locked rfl rfl (.inl ⟨_,stays,setPc_self _ _ _⟩)⟩
  | returned pc locked =>
    cases actor
    rw [call_task pc] at called
    cases called
    exact ⟨_,_,taskSection_of_eq pc rfl locked rfl rfl (.inr ⟨_,rfl,setPc_self _ _ _⟩)⟩
  | valid pc | invalid pc | found pc | created pc | outOfMemory pc | refused pc | granted pc
  | messageCreated pc | messageFailed pc | countFault pc | countCopied pc | copied pc
  | copyFault pc | destroyed pc | lastThread pc | otherThread pc | removalFound pc
  | removalMissing pc | deletionStarted pc | deletionFailed pc | realExit pc | decrementLive pc
  | die pc =>
    cases actor
    rw [call_task pc] at called
    cases called

/-- A deletion thread takes its next section of `mailbox_destroy`. -/
theorem Stepped.kthread_section (h : Stepped hash32 s act s') {k : ℕ}
    (running : s.running act = some (.kthread k,m,cs)) :
    ∃ m' pr, s.deletions k = some ⟨m,.destroying cs⟩ ∧ act.moves = none ∧
      s.Section (.kthread k) m cs m' pr ∧ s'.mailboxes = (s.setMailbox m m').mailboxes := by
  obtain ⟨actor,called⟩ := running_eq_some_iff.mp running
  cases h with
  | newProcess | clone | enter | exit | exitGroup | fatalSignal | killed | reap | signal
  | handle | valid | invalid | found | created | outOfMemory | stays | returned | refused
  | granted | messageCreated | messageFailed | countFault | countCopied | copied | copyFault
  | destroyed | lastThread | otherThread | removalFound | removalMissing | deletionStarted
  | deletionFailed | realExit | decrementLive | die => cases actor
  | ownerRead deletion | stillValid deletion | exited deletion | unlinked deletion =>
    cases actor
    rw [call_kthread deletion] at called
    cases called
  | destroyStays deletion locked | flushed deletion locked | deleted deletion locked =>
    cases actor
    rw [call_kthread deletion] at called
    cases called
    exact ⟨_,_,deletion,rfl,locked,rfl⟩

/-- A thread that is in a function of a mailbox takes its next section there. -/
theorem Stepped.section_of_running (h : Stepped hash32 s act s')
    (running : s.running act = some (a,m,cs)) :
    ∃ pr, s.Section a m cs (s'.mailboxes m) pr := by
  cases a with
  | task p =>
    obtain ⟨k,pr,ts⟩ := h.task_section running
    exact ⟨pr,ts.locked⟩
  | kthread k =>
    obtain ⟨m',pr,-,-,locked,mailboxes⟩ := h.kthread_section running
    rw [mailboxes,setMailbox_self]
    exact ⟨pr,locked⟩

/-- Nobody works on a mailbox that has not been created. -/
structure InBounds (s : System) : Prop where
  tasks : ∀ p m, (s.pc p).mailbox = some m → m < s.mailboxesCreated
  deletions : ∀ k d, s.deletions k = some d → d.mailbox < s.mailboxesCreated

lemma inBounds_initial : InBounds (initial sig) where
  tasks p m h := by cases h
  deletions k d h := by cases h

lemma InBounds.deletion_lt (h : InBounds s) {k : ℕ} {pc : DeletionPc}
    (deletion : s.deletions k = some ⟨m,pc⟩) : m < s.mailboxesCreated :=
  h.deletions k _ deletion

/-- A task goes on, on a mailbox that exists if on any. -/
lemma InBounds.setPc (h : InBounds s) (p : Pid) {c : Pc} (pcs : t.pc = s.pc)
    (deletions : t.deletions = s.deletions) (grows : s.mailboxesCreated ≤ t.mailboxesCreated)
    (new : ∀ m, c.mailbox = some m → m < t.mailboxesCreated) : InBounds (t.setPc p c) where
  tasks := by
    apply forall_setPc (P := fun c => ∀ m, c.mailbox = some m → m < t.mailboxesCreated)
    · intro q m hm
      rw [pcs] at hm
      exact lt_of_lt_of_le (h.tasks q m hm) grows
    · exact new
  deletions := by
    intro k d hd
    change t.deletions k = some d at hd
    rw [deletions] at hd
    exact lt_of_lt_of_le (h.deletions k d hd) grows

/-- A task stays on its mailbox, or leaves it. -/
lemma InBounds.stay (h : InBounds s) {p : Pid} {c c' : Pc} (pc : s.pc p = c)
    (pcs : t.pc = s.pc) (deletions : t.deletions = s.deletions)
    (created : t.mailboxesCreated = s.mailboxesCreated)
    (same : ∀ m, c'.mailbox = some m → c.mailbox = some m) : InBounds (t.setPc p c') := by
  refine h.setPc p pcs deletions (Nat.le_of_eq created.symm) ?_
  intro m hm
  rw [created]
  apply h.tasks p m
  rw [pc]
  exact same m hm

lemma InBounds.setDeletion (h : InBounds s) {k : ℕ} {d : DeletionThread} (pcs : t.pc = s.pc)
    (deletions : t.deletions = s.deletions) (created : t.mailboxesCreated = s.mailboxesCreated)
    (new : d.mailbox < s.mailboxesCreated) : InBounds (t.setDeletion k d) where
  tasks p m hm := by
    change (t.pc p).mailbox = some m at hm
    rw [pcs] at hm
    change m < t.mailboxesCreated
    rw [created]
    exact h.tasks p m hm
  deletions := by
    change ∀ k' (d' : DeletionThread), _ → d'.mailbox < t.mailboxesCreated
    rw [created]
    apply forall_setDeletion (P := fun d => d.mailbox < s.mailboxesCreated)
    · rw [deletions]
      exact h.deletions
    · exact new

theorem InBounds.stepped (h : InBounds s) (hc : Consistent hash32 s)
    (hs : Stepped hash32 s act s') : InBounds s' := by
  cases hs with
  | newProcess | clone => exact h.setPc _ rfl rfl le_rfl nofun
  | enter pc | exit pc | exitGroup pc | killed pc | reap pc | valid pc | invalid pc
  | outOfMemory pc | destroyed pc | lastThread pc | otherThread pc | removalMissing pc
  | realExit pc | decrementLive pc | die pc | deletionFailed pc =>
    exact h.stay pc rfl rfl rfl nofun
  | found pc unlocked found =>
    refine h.setPc _ rfl rfl le_rfl ?_
    intro m hm
    cases hm
    exact hc.linked_lt _ (linked_of_get found).1
  | removalFound pc unlocked found =>
    refine h.setPc _ rfl rfl le_rfl ?_
    intro m hm
    cases hm
    exact hc.linked_lt _ (linked_of_get found).1
  | created pc =>
    refine h.setPc _ rfl rfl (Nat.le_succ _) ?_
    intro m hm
    cases hm
    exact Nat.lt_succ_self _
  | stays pc | refused pc | messageCreated pc | messageFailed pc | countFault pc | copied pc
  | copyFault pc =>
    exact h.stay pc rfl rfl rfl fun m hm => hm
  | granted pc =>
    exact h.stay pc rfl rfl rfl fun m hm => (mailbox_begin _ _).symm.trans hm
  | countCopied pc =>
    refine h.stay pc rfl rfl rfl ?_
    intro m hm
    split at hm <;> exact hm
  | returned pc =>
    refine h.stay pc rfl rfl rfl ?_
    intro m hm
    rw [mailbox_resume _ _ _ hm]
    rfl
  | @deletionStarted p o m group pc =>
    have hm : m < s.mailboxesCreated := by
      apply h.tasks p m
      rw [pc]
      rfl
    have hk : InBounds (s.kthreadRun m) :=
      h.setDeletion (t := { s with deletionsStarted := s.deletionsStarted + 1 }) rfl rfl rfl hm
    exact hk.stay pc rfl rfl rfl nofun
  | ownerRead deletion | exited deletion | unlinked deletion | destroyStays deletion
  | flushed deletion | deleted deletion =>
    exact h.setDeletion rfl rfl rfl (h.deletion_lt deletion)
  | fatalSignal | signal | handle | stillValid => exact ⟨h.tasks,h.deletions⟩

theorem inBounds_of_run (h : Run (step hash32) (initial sig) tr s) : InBounds s := by
  have hboth : Consistent hash32 s ∧ InBounds s := by
    refine h.invariant (P := fun t => Consistent hash32 t ∧ InBounds t)
      ⟨consistent_initial sig,inBounds_initial⟩ ?_
    intro t act t' ⟨hc,hb⟩ ht
    exact ⟨hc.stepped (step_stepped ht),hb.stepped hc (step_stepped ht)⟩
  exact hboth.2

lemma InBounds.call_lt (h : InBounds s) (called : s.call a = some (m,cs)) :
    m < s.mailboxesCreated := by
  cases a with
  | task p =>
    obtain ⟨k,hpc⟩ := Pc.call_eq called
    apply h.tasks p m
    rw [hpc]
    rfl
  | kthread k =>
    obtain ⟨d,hd,hcall⟩ := Option.bind_eq_some_iff.mp called
    obtain rfl := d.call_eq hcall
    exact h.deletions k _ hd

/-- The mailboxes that have not been created are blank. -/
def Uncreated (s : System) : Prop := ∀ m, s.mailboxesCreated ≤ m → s.mailboxes m = .create 0

lemma mailboxesCreated_stepped (hs : Stepped hash32 s act s') :
    s'.mailboxesCreated = s.mailboxesCreated ∨
      s'.mailboxesCreated = s.mailboxesCreated + 1 ∧
        ∃ p pid c, s' = s.createMailbox hash32 p pid c := by
  cases hs with
  | created => exact .inr ⟨rfl,_,_,_,rfl⟩
  | _ => exact .inl rfl

theorem Uncreated.stepped (h : Uncreated s) (hb : InBounds s) (hs : Stepped hash32 s act s') :
    Uncreated s' := by
  intro m new
  have hgrows : s.mailboxesCreated ≤ m := by
    rcases mailboxesCreated_stepped hs with he | ⟨he,-⟩ <;> omega
  cases hs.mailboxStep m with
  | same mailbox => exact mailbox.trans (h m hgrows)
  | created hm grown => omega
  | run running locked =>
    have hlt := hb.call_lt (running_eq_some_iff.mp running).2
    omega

theorem uncreated_of_run (h : Run (step hash32) (initial sig) tr s) : Uncreated s := by
  induction h with
  | refl => exact fun _ _ => rfl
  | snoc prior taken ih => exact ih.stepped (inBounds_of_run prior) (step_stepped taken)

/-- The functions of one mailbox that the threads are in. -/
def callsOn (s : System) (m : ℕ) (a : Actor) : Option (CallState MessagePtr) :=
  (s.call a).bind fun c => if c.1 = m then some c.2 else none

lemma callsOn_eq_some_iff : s.callsOn m a = some cs ↔ s.call a = some (m,cs) := by
  unfold callsOn
  constructor
  · intro h
    obtain ⟨⟨n,cs'⟩,hcall,hif⟩ := Option.bind_eq_some_iff.mp h
    dsimp only at hif
    split_ifs at hif with hn
    cases hif
    rw [hcall,hn]
  · intro h
    simp [h]

lemma callsOn_eq_none (h : ∀ cs, s.call a ≠ some (m,cs)) : s.callsOn m a = none := by
  rw [Option.eq_none_iff_forall_ne_some]
  intro cs hcs
  exact h cs (callsOn_eq_some_iff.mp hcs)

lemma callsOn_congr (h : s'.call a = s.call a) : s'.callsOn m a = s.callsOn m a := by
  unfold callsOn
  rw [h]

/-- The system as one mailbox sees it. -/
def project (s : System) (m : ℕ) : MailboxSystem Actor MessagePtr where
  mailbox := s.mailboxes m
  calls := s.callsOn m
  signalPending := s.signalPending

/-- Between the two states the mailbox and its callers take steps of their own. -/
def Projects (s s' : System) (m : ℕ) : Prop :=
  ∃ tr, Run MailboxSystem.step (s.project m) tr (s'.project m)

/-- A thread that is on no mailbox goes on, perhaps to a mailbox. -/
lemma projects_of_idle (idle : s.callsOn m a = none) (starts : Starts (s'.call a))
    (others : ∀ b, b ≠ a → s'.call b = s.call b) (mailbox : s'.mailboxes m = s.mailboxes m)
    (signals : s'.signalPending = s.signalPending) : Projects s s' m := by
  apply MailboxSystem.run_invoke idle mailbox signals
  · intro b hb
    exact callsOn_congr (others b hb)
  · intro cs hcs
    exact starts m cs (callsOn_eq_some_iff.mp hcs)

lemma projects_setPc {p : Pid} {c c' : Pc} (pc : s.pc p = c) (idle : c.call = none)
    (starts : Starts c'.call) (calls : t.call = s.call) (mailbox : t.mailboxes m = s.mailboxes m)
    (signals : t.signalPending = s.signalPending) : Projects s (t.setPc p c') m := by
  refine projects_of_idle (a := .task p) ?_ ?_ ?_ mailbox signals
  · apply callsOn_eq_none
    intro cs
    rw [call_task pc,idle]
    exact Option.some_ne_none _ ∘ Eq.symm
  · rw [call_setPc_self]
    exact starts
  · intro b hb
    rw [call_setPc_of_ne t c' hb,calls]

lemma projects_setDeletion {k : ℕ} {d d' : DeletionThread} (deletion : s.deletions k = some d)
    (idle : d.call = none) (starts : Starts d'.call) (calls : t.call = s.call)
    (mailbox : t.mailboxes m = s.mailboxes m) (signals : t.signalPending = s.signalPending) :
    Projects s (t.setDeletion k d') m := by
  refine projects_of_idle (a := .kthread k) ?_ ?_ ?_ mailbox signals
  · apply callsOn_eq_none
    intro cs
    rw [call_kthread deletion,idle]
    exact Option.some_ne_none _ ∘ Eq.symm
  · rw [call_setDeletion_self]
    exact starts
  · intro b hb
    rw [call_setDeletion_of_ne t d' hb,calls]

/-- A section of a thread, after which the thread is on its way to the start of a function. -/
lemma projects_section {m' : Mailbox Actor MessagePtr} {pr : Progress MessagePtr}
    (called : s.call a = some (n,cs)) (h : s.Section a n cs m' pr)
    (mailboxes : s'.mailboxes = (s.setMailbox n m').mailboxes)
    (signals : s'.signalPending = s.signalPending) (others : ∀ b, b ≠ a → s'.call b = s.call b)
    (stays : ∀ cs', pr.callState = some cs' → s'.call a = some (n,cs'))
    (starts : pr.callState = none → Starts (s'.call a)) : Projects s s' m := by
  by_cases hn : n = m
  · subst n
    -- the section of the mailbox alone, and then the next call
    let u : MailboxSystem Actor MessagePtr :=
      { s.project m with
        mailbox := m'
        calls := Function.update (s.callsOn m) a pr.callState }
    have hsection : MailboxSystem.step (s.project m) (.run a) = some u := by
      have hcalled : (s.project m).calls a = some cs := callsOn_eq_some_iff.mpr called
      have hlocked : (s.project m).lockedBy a cs = (m',pr) := h.result
      have hrunnable : (s.project m).mailbox.runnable a ((s.project m).signalPending a) cs = true :=
        h.runnable
      simp only [MailboxSystem.step,hcalled,hrunnable,if_true,MailboxSystem.runCaller,hlocked]
      rfl
    have hmailbox : s'.mailboxes m = m' := by rw [mailboxes,setMailbox_self]
    have hrest : ∃ tr, Run MailboxSystem.step u tr (s'.project m) := by
      have hothers : ∀ b, b ≠ a → (s'.project m).calls b = u.calls b := by
        intro b hb
        exact (callsOn_congr (others b hb)).trans (Function.update_of_ne hb _ _).symm
      have hself : u.calls a = pr.callState := Function.update_self _ _ _
      cases hp : pr.callState with
      | none =>
        refine MailboxSystem.run_invoke (hself.trans hp) hmailbox signals hothers ?_
        intro cs' hcs'
        exact starts hp m cs' (callsOn_eq_some_iff.mp hcs')
      | some cs' =>
        have hu : u = s'.project m := by
          have hcalls : u.calls = (s'.project m).calls := by
            funext b
            by_cases hb : b = a
            · subst b
              rw [hself,hp]
              exact (callsOn_eq_some_iff.mpr (stays cs' hp)).symm
            · exact (hothers b hb).symm
          exact congr (congr (congrArg MailboxSystem.mk hmailbox.symm) hcalls) signals.symm
        exact ⟨[],hu ▸ .refl⟩
    obtain ⟨tr,hrun⟩ := hrest
    exact ⟨_,hrun.cons hsection⟩
  · refine MailboxSystem.run_invoke (a := a) ?_ ?_ signals ?_ ?_
    · apply callsOn_eq_none
      intro cs'
      rw [called]
      exact fun heq => hn (congrArg Prod.fst (Option.some.inj heq))
    · change s'.mailboxes m = s.mailboxes m
      rw [mailboxes,setMailbox_of_ne s (Ne.symm hn)]
    · intro b hb
      exact callsOn_congr (others b hb)
    · intro cs' hcs'
      have hcall : s'.call a = some (m,cs') := callsOn_eq_some_iff.mp hcs'
      cases hp : pr.callState with
      | none => exact starts hp m cs' hcall
      | some cs'' =>
        rw [stays cs'' hp] at hcall
        exact absurd (congrArg Prod.fst (Option.some.inj hcall)) hn

lemma projects_of_eq (mailbox : s'.mailboxes m = s.mailboxes m) (calls : s'.call = s.call)
    (signals : s'.signalPending = s.signalPending) : Projects s s' m := by
  have he : s'.project m = s.project m := by
    unfold project callsOn
    rw [mailbox,calls,signals]
  exact ⟨[],he ▸ .refl⟩

lemma call_kthreadRun (h : Consistent hash32 s) (m : ℕ) : (s.kthreadRun m).call = s.call := by
  funext a
  by_cases ha : a = .kthread s.deletionsStarted
  · subst a
    have hnone : s.deletions s.deletionsStarted = none := by
      by_contra hne
      exact Nat.lt_irrefl _ (h.deletions_lt _ hne)
    have hold : s.call (.kthread s.deletionsStarted) = none := by simp [call,hnone]
    rw [hold]
    exact call_setDeletion_self s s.deletionsStarted ⟨m,.start⟩
  · exact call_setDeletion_of_ne s ⟨m,.start⟩ ha

/-- Every step of the system is, for each mailbox there is, a few steps of that mailbox. -/
theorem Stepped.projects (hs : Stepped hash32 s act s') (h : Consistent hash32 s)
    (created : m < s.mailboxesCreated) : Projects s s' m := by
  cases hs with
  | newProcess absent | clone _ _ absent =>
    exact projects_setPc absent rfl starts_none rfl rfl rfl
  | enter pc | exit pc | exitGroup pc | killed pc | reap pc | valid pc | invalid pc
  | outOfMemory pc | destroyed pc | lastThread pc | otherThread pc | removalMissing pc
  | realExit pc | decrementLive pc | die pc | deletionFailed pc =>
    exact projects_setPc pc rfl starts_none rfl rfl rfl
  | fatalSignal | stillValid => exact projects_of_eq rfl rfl rfl
  | @signal a => exact ⟨_,Run.single (a := .signal a) rfl⟩
  | @handle p last pc =>
    have hidle : s.callsOn m (.task p) = none := by
      apply callsOn_eq_none
      intro cs
      rw [call_task pc]
      exact Option.some_ne_none _ ∘ Eq.symm
    have hstep : MailboxSystem.step (s.project m) (.handle (.task p)) = some
        { s.project m with
          signalPending := Function.update s.signalPending (.task p) false } := by
      have hcalls : (s.project m).calls (.task p) = none := hidle
      simp only [MailboxSystem.step,hcalls,Option.isNone_none,if_true]
      rfl
    exact ⟨_,Run.single hstep⟩
  | found pc => exact projects_setPc pc rfl (starts_start _ .claim) rfl rfl rfl
  | @created p o pid c pc =>
    have hm : m ≠ s.mailboxesCreated := Nat.ne_of_lt created
    exact projects_setPc pc rfl (starts_start _ .claim) rfl (setMailbox_of_ne s hm _) rfl
  | refused pc | messageFailed pc | countFault pc | copied pc =>
    exact projects_setPc pc rfl (starts_start _ .unclaim) rfl rfl rfl
  | granted pc => exact projects_setPc pc rfl (starts_begin _ _) rfl rfl rfl
  | messageCreated pc => exact projects_setPc pc rfl (starts_start _ (.add _ _ _)) rfl rfl rfl
  | countCopied pc =>
    refine projects_setPc pc rfl ?_ rfl rfl rfl
    split
    · exact starts_start _ .stop
    · exact starts_start _ .unclaim
  | copyFault pc => exact projects_setPc pc rfl (starts_start _ (.add _ _ _)) rfl rfl rfl
  | removalFound pc => exact projects_setPc pc rfl (starts_start _ .exiting) rfl rfl rfl
  | deletionStarted pc =>
    exact projects_setPc pc rfl starts_none (call_kthreadRun h _) rfl rfl
  | ownerRead deletion | exited deletion =>
    exact projects_setDeletion deletion rfl starts_none rfl rfl rfl
  | unlinked deletion =>
    exact projects_setDeletion deletion rfl (starts_start _ .destroy) rfl rfl rfl
  | stays pc locked stays =>
    refine projects_section (call_task pc) locked rfl rfl (fun b hb => call_setPc_of_ne _ _ hb) ?_ ?_
    · intro cs' hcs'
      rw [call_setPc_self]
      rw [stays] at hcs'
      cases hcs'
      rfl
    · intro hnone
      rw [stays] at hnone
      cases hnone
  | returned pc locked =>
    refine projects_section (call_task pc) locked rfl rfl (fun b hb => call_setPc_of_ne _ _ hb)
      (fun cs' hcs' => by cases hcs') fun _ => ?_
    rw [returnFrom,call_setPc_self]
    exact starts_resume _ _ _
  | destroyStays deletion locked | flushed deletion locked =>
    refine projects_section (call_kthread deletion) locked rfl rfl
      (fun b hb => call_setDeletion_of_ne _ _ hb) ?_ (fun hnone => by cases hnone)
    intro cs' hcs'
    rw [call_setDeletion_self]
    cases hcs'
    rfl
  | deleted deletion locked =>
    refine projects_section (call_kthread deletion) locked rfl rfl
      (fun b hb => call_setDeletion_of_ne _ _ hb) (fun cs' hcs' => by cases hcs') fun _ => ?_
    rw [call_setDeletion_self]
    exact starts_none

/-- A mailbox keeps its owner from its creation on. -/
lemma owner_stepped (hs : Stepped hash32 s act s') (created : m < s.mailboxesCreated) :
    s'.owner m = s.owner m := by
  unfold owner
  cases hs.mailboxStep m with
  | same mailbox => rw [mailbox]
  | created new => exact absurd new (Nat.ne_of_lt created)
  | run running locked => exact locked.2.owner_eq

/-- The step that creates a mailbox takes its creator to it, and nobody else. -/
lemma run_createMailbox (h : InBounds s) (p pid : Pid) (c : Syscall) :
    ∃ tr, Run MailboxSystem.step (MailboxSystem.create pid s.signalPending) tr
      ((s.createMailbox hash32 p pid c).project s.mailboxesCreated) := by
  have hcall : (s.createMailbox hash32 p pid c).call (.task p) =
      some (s.mailboxesCreated,.claim) := call_setPc_self _ _ _
  have hothers : ∀ b, b ≠ .task p → s.callsOn s.mailboxesCreated b = none := by
    intro b hb
    apply callsOn_eq_none
    intro cs hcs
    exact Nat.lt_irrefl _ (h.call_lt hcs)
  refine MailboxSystem.run_invoke (a := .task p) rfl (setMailbox_self s _ _) rfl ?_ ?_
  · intro b hb
    exact (callsOn_congr (call_setPc_of_ne _ _ hb)).trans (hothers b hb)
  · intro cs hcs
    have hc := callsOn_eq_some_iff.mp hcs
    rw [hcall] at hc
    cases hc
    exact ⟨.claim,rfl⟩

/-- From its creation on, every mailbox of the system runs like a mailbox of its own. -/
theorem project_run (h : Run (step hash32) (initial sig) tr s) (created : m < s.mailboxesCreated) :
    ∃ pending tr', Run MailboxSystem.step (MailboxSystem.create (s.owner m) pending) tr'
      (s.project m) := by
  induction h with
  | refl => exact absurd created (Nat.not_lt_zero m)
  | @snoc tr s act s' prior taken ih =>
    have hs := step_stepped taken
    by_cases hm : m < s.mailboxesCreated
    · obtain ⟨pending,tr',hrun⟩ := ih hm
      obtain ⟨tr'',hrun'⟩ := hs.projects (consistent_of_run prior) hm
      rw [owner_stepped hs hm]
      exact ⟨pending,_,hrun.append hrun'⟩
    · rcases mailboxesCreated_stepped hs with he | ⟨he,p,pid,c,rfl⟩
      · exact absurd (he ▸ created) hm
      · have hnew : m = s.mailboxesCreated := by omega
        subst hnew
        have howner : (s.createMailbox hash32 p pid c).owner s.mailboxesCreated = pid :=
          owner_create_self s pid
        rw [howner]
        obtain ⟨tr',hrun⟩ := run_createMailbox (inBounds_of_run prior) p pid c
        exact ⟨s.signalPending,tr',hrun⟩

/-- The count of every mailbox stays between zero and its size. -/
theorem mailbox_bounded (h : Run (step hash32) (initial sig) tr s)
    (created : m < s.mailboxesCreated) :
    (s.mailboxes m).Bounded ∧ (s.mailboxes m).messageMax = 32 := by
  obtain ⟨pending,tr',hrun⟩ := project_run h created
  exact MailboxSystem.bounded_of_run hrun

/-- A mailbox that has been freed is stopped, and it holds no message. -/
theorem freed_mailbox_empty (h : Run (step hash32) (initial sig) tr s)
    (created : m < s.mailboxesCreated) (freed : (s.mailboxes m).frees ≠ 0) :
    (s.mailboxes m).stopped ≠ 0 ∧ (s.mailboxes m).messages = [] := by
  obtain ⟨pending,tr',hrun⟩ := project_run h created
  exact (MailboxSystem.flushInvariant_of_run hrun).freed freed

end System
end ProcessMessagePassing
