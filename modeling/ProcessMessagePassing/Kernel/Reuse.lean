import ProcessMessagePassing.Kernel.Calls
import ProcessMessagePassing.Kernel.Orphan
import ProcessMessagePassing.Kernel.Queue

/-! Process ids that are given to a second process. A mailbox is found by the id alone, so what
its first process has left in the table belongs to the second. -/
namespace ProcessMessagePassing
open Concurrency HashTable

namespace System
variable {hash32 : Pid → ℕ} {sig : Actor → Bool} {s s' : System} {act : Action}
  {tr : List (System × Action)} {m : ℕ} {x : MessagePtr} {p g : Pid}

/-- A send to process `g` has put the message on the mailbox, in the lifetime of `g` that is the
present one in `s`. -/
def SentTo (tr : List (System × Action)) (s : System) (m : ℕ) (g : Pid) (x : MessagePtr) : Prop :=
  ∃ before t act after q i len block, tr = before ++ (t,act) :: after ∧ act.moves = some q ∧
    callOf q before = some (i,.sendMessage g len block) ∧ t.adds m false act = some x ∧
    t.processes.births g = s.processes.births g

/-- The mailbox has been stopped in the present lifetime of its owner. -/
def StoppedSince (tr : List (System × Action)) (s : System) (m : ℕ) : Prop :=
  ∃ y ∈ tr, ∃ a cs st, y.1.running y.2 = some (a,m,cs) ∧ Mailbox.writesStopped cs = some st ∧
    y.1.processes.births (s.owner m) = s.processes.births (s.owner m)

/-- Every message that a process receives was sent to this process and not to an earlier one with
its pid, and whoever finds a mailbox stopped finds one that was stopped for this process. -/
structure OwnMessages (hash32 : Pid → ℕ) (tr : List (System × Action)) : Prop where
  received : ∀ before t p o m x ptrs after, tr = before ++ (t,.run p o) :: after →
    t.pc p = .copyToUser m x ptrs → ptrs.writable (t.messages.read o x) = true →
    SentTo before t m (t.processes.tgid p) x
  stopped : ∀ before t p o pid c m after, tr = before ++ (t,.run p o) :: after →
    t.pc p = .lookup pid c → t.get hash32 pid = some m → (t.mailboxes m).stopped ≠ 0 →
    StoppedSince before t m

/-- A process that starts finds no mailbox under its pid, or one without messages that runs. -/
def FreshStart (hash32 : Pid → ℕ) (s : System) (act : Action) : Prop :=
  ∀ p uid, act = .newProcess p uid → ∀ m, s.get hash32 p = some m →
    (s.mailboxes m).messages = [] ∧ (s.mailboxes m).stopped = 0

/-- A receive that finds the count positive finds a message. -/
def CountsMessages (s : System) (act : Action) : Prop :=
  ∀ a m cs, s.running act = some (a,m,cs) → cs.Removes → (s.mailboxes m).messageCount ≠ 0 →
    (s.mailboxes m).messages ≠ []

/-- The mailbox is in the table, or a task of its owner works on it. -/
def Reached (s : System) (m : ℕ) : Prop :=
  s.table.Linked m ∨ ∃ p, (s.pc p).mailbox = some m ∧ s.processes.group p = some (s.owner m)

/-- What is in reach of a process was sent to it in its lifetime. -/
structure OwnInvariant (hash32 : Pid → ℕ) (tr : List (System × Action)) (s : System) : Prop where
  queued : ∀ m x, s.Reached m → x ∈ (s.mailboxes m).messages → SentTo tr s m (s.owner m) x
  taken : ∀ p m x ptrs, s.pc p = .copyToUser m x ptrs → SentTo tr s m (s.processes.tgid p) x
  returning : ∀ p m cs x head, s.pc p = .onMailbox m cs .putBack → cs.adding = some (x,head) →
    SentTo tr s m (s.processes.tgid p) x
  stopped : ∀ m, s.table.Linked m → (s.mailboxes m).stopped ≠ 0 → StoppedSince tr s m

theorem ownInvariant_initial : OwnInvariant hash32 [] (initial sig) where
  queued m x h hx := by cases hx
  taken p m x ptrs h := by cases h
  returning p m cs x head h := by cases h
  stopped m h := by obtain ⟨b,hb⟩ := h; cases hb

/-- A task comes to a mailbox through the table. -/
lemma mailbox_stepped (h : Stepped hash32 s act s') (hm : (s'.pc p).mailbox = some m) :
    (s.pc p).mailbox = some m ∨ s.table.Linked m ∨ m = s.mailboxesCreated := by
  cases h.taskStep p with
  | rests moves pc => exact .inl (pc ▸ hm)
  | arrives pc next | leaves pc next | enters action pc next | valid action pc valid next
  | invalid action pc next | outOfMemory action pc next | destroyed action pc messages next =>
    rw [next] at hm
    cases hm
  | ends pc next exits off | exiting pc next old new off =>
    rw [next,off] at hm
    cases hm
  | found action pc found next | removalFound action pc found next =>
    rw [next] at hm
    cases hm
    exact .inr (.inl (linked_of_get found).1)
  | created action pc missing memory owner next =>
    rw [next] at hm
    exact .inr (.inr (Option.some.inj hm).symm)
  | stays action pc locked stays next | refused action pc exiting next
  | messageCreated action pc made next | messageFailed action pc failed next
  | countFault action pc fault next | copied action pc writable next
  | copyFault action pc fault next =>
    rw [next] at hm
    rw [pc]
    exact .inl hm
  | granted action pc alive next =>
    rw [next,mailbox_begin] at hm
    rw [pc]
    exact .inl hm
  | countCopied action pc writable next =>
    rw [next] at hm
    rw [pc]
    left
    split at hm <;> exact hm
  | returned action pc locked next =>
    rw [next] at hm
    rw [pc,mailbox_resume _ _ _ hm]
    exact .inl rfl

lemma mailbox_present {c : Pc} (h : c.mailbox = some m) : c ≠ .absent ∧ c ≠ .zombie := by
  constructor <;> rintro rfl <;> cases h

/-- A mailbox that is in reach after a step was so before, or the step has created it. -/
lemma reached_stepped (hc : Consistent hash32 s) (bounds : InBounds s) (threads : ThreadInvariant s)
    (h : Stepped hash32 s act s') (reached : s'.Reached m) : s.Reached m ∨ m = s.mailboxesCreated := by
  rcases reached with hl | ⟨p,hm,hg⟩
  · rcases linked_stepped hc h hl with hold | ⟨hnew,-⟩
    · exact .inl (.inl hold)
    · exact .inr hnew
  · rcases mailbox_stepped h hm with hold | hl | hnew
    · have hlt := bounds.tasks p m hold
      rw [owner_stepped h hlt] at hg
      rw [threads.group_kept h (mailbox_present hold).1 (mailbox_present hold).2] at hg
      exact .inl (.inr ⟨p,hold,hg⟩)
    · exact .inl (.inl hl)
    · exact .inr hnew

lemma SentTo.mono (h : SentTo tr s m g x) (s' : System) (births : s'.processes.births g = s.processes.births g)
    (y : System × Action) : SentTo (tr ++ [y]) s' m g x := by
  obtain ⟨before,t,act,after,q,i,len,block,rfl,hq,hcall,hadds,hbirths⟩ := h
  exact ⟨before,t,act,after ++ [y],q,i,len,block,by simp,hq,hcall,hadds,hbirths.trans births.symm⟩

lemma StoppedSince.mono (h : StoppedSince tr s m) (s' : System) (owner : s'.owner m = s.owner m)
    (births : s'.processes.births (s.owner m) = s.processes.births (s.owner m))
    (y : System × Action) : StoppedSince (tr ++ [y]) s' m := by
  obtain ⟨z,hz,a,cs,st,running,writes,hbirths⟩ := h
  refine ⟨z,List.mem_append_left _ hz,a,cs,st,running,writes,?_⟩
  rw [owner]
  exact hbirths.trans births.symm

lemma Reached.lt (hc : Consistent hash32 s) (bounds : InBounds s) (h : s.Reached m) :
    m < s.mailboxesCreated := by
  rcases h with hl | ⟨p,hm,-⟩
  · exact hc.linked_lt m hl
  · exact bounds.tasks p m hm

/-- The lifetime of its owner goes on, or a new one begins and finds the mailbox fresh. -/
lemma Reached.fresh (hc : Consistent hash32 s) (threads : ThreadInvariant s)
    (h : Stepped hash32 s act s') (fresh : FreshStart hash32 s act) (reached : s.Reached m) :
    s'.processes.births (s.owner m) = s.processes.births (s.owner m) ∨
      (s.mailboxes m).messages = [] ∧ (s.mailboxes m).stopped = 0 := by
  rcases births_stepped h (s.owner m) with he | ⟨-,-,⟨uid,hact⟩,hfree,-⟩
  · exact .inl he
  · rcases reached with hl | ⟨p,-,hg⟩
    · exact .inr (fresh (s.owner m) uid hact m ((get_eq_some_iff hc.table).mpr ⟨hl,rfl⟩))
    · exact absurd hg (threads.no_member hfree p)

lemma births_running {a : Actor} {n : ℕ} {cs : CallState MessagePtr}
    (h : Stepped hash32 s act s') (running : s.running act = some (a,n,cs)) (g : Pid) :
    s'.processes.births g = s.processes.births g := by
  rcases births_stepped h g with he | ⟨-,-,⟨uid,rfl⟩,-⟩
  · exact he
  · cases running

/-- The parts of the system that the messages of a process rest on. -/
structure ReuseInvariant (hash32 : Pid → ℕ) (tr : List (System × Action)) (s : System) : Prop where
  consistent : Consistent hash32 s
  bounds : InBounds s
  uncreated : Uncreated s
  threads : ThreadInvariant s
  calls : CallInvariant tr s
  own : OwnInvariant hash32 tr s

/-- A process with a task is not born again. -/
lemma births_member (threads : ThreadInvariant s) (h : Stepped hash32 s act s')
    (member : s.processes.group p = some g) :
    s'.processes.births g = s.processes.births g := by
  rcases births_stepped h g with he | ⟨-,-,-,hfree,-⟩
  · exact he
  · exact absurd member (threads.no_member hfree p)

/-- What was sent to the process of a task stays so as long as the task is there. -/
lemma SentTo.kept (sent : SentTo tr s m (s.processes.tgid p) x) (threads : ThreadInvariant s)
    (h : Stepped hash32 s act s') (present : s.pc p ≠ .absent) (alive : s.pc p ≠ .zombie) :
    SentTo (tr ++ [(s,act)]) s' m (s'.processes.tgid p) x := by
  rw [threads.tgid_kept h present alive]
  obtain ⟨g,hg⟩ := threads.exists_group present
  rw [Processes.tgid_of_group hg] at sent ⊢
  exact sent.mono s' (births_member threads h hg) _

variable (inv : ReuseInvariant hash32 tr s)
include inv

lemma ReuseInvariant.queued_stepped (h : Stepped hash32 s act s') (fresh : FreshStart hash32 s act)
    (m : ℕ) (x : MessagePtr) (reached : s'.Reached m) (hx : x ∈ (s'.mailboxes m).messages) :
    SentTo (tr ++ [(s,act)]) s' m (s'.owner m) x := by
  -- a message that was on the list before
  have hold : x ∈ (s.mailboxes m).messages → SentTo (tr ++ [(s,act)]) s' m (s'.owner m) x := by
    intro hx
    rcases reached_stepped inv.consistent inv.bounds inv.threads h reached with hreached | rfl
    · rw [owner_stepped h (hreached.lt inv.consistent inv.bounds)]
      rcases hreached.fresh inv.consistent inv.threads h fresh with he | ⟨hempty,-⟩
      · exact (inv.own.queued m x hreached hx).mono s' he _
      · rw [hempty] at hx
        cases hx
    · rw [inv.uncreated _ le_rfl] at hx
      cases hx
  rcases h.queued_cases hx with hbefore | ⟨head,hadds⟩
  · exact hold hbefore
  · obtain ⟨p,cs,hmoves,running,hadding,hpc⟩ := h.adder inv.consistent hadds
    have hbirths := births_running h running (s.owner m)
    rw [owner_stepped h (inv.bounds.call_lt (running_eq_some_iff.mp running).2)]
    rcases hpc with ⟨rfl,hpc⟩ | ⟨rfl,hpc⟩
    · obtain ⟨i,len,block,hcall⟩ := inv.calls.sending hpc
      exact ⟨tr,s,act,[],p,i,len,block,rfl,hmoves,hcall,hadds,hbirths.symm⟩
    · have hreturn := inv.own.returning p m cs x true hpc hadding
      rw [← inv.calls.receiving hpc (.inr rfl)] at hreturn
      exact hreturn.mono s' hbirths _

lemma ReuseInvariant.taken_stepped (h : Stepped hash32 s act s') (counts : CountsMessages s act)
    (p : Pid) (m : ℕ) (x : MessagePtr) (ptrs : RecievePtrs)
    (hpc : s'.pc p = .copyToUser m x ptrs) :
    SentTo (tr ++ [(s,act)]) s' m (s'.processes.tgid p) x := by
  rcases h.copying hpc with hold | ⟨e,o,cs,rfl,rfl,hold,locked⟩
  · exact (inv.own.taken p m x ptrs hold).kept inv.threads h (by rw [hold]; nofun)
      (by rw [hold]; nofun)
  · have hcalled : s.call (.task p) = some (m,cs) := call_task hold
    have hfits := inv.consistent.fits p
    rw [hold] at hfits
    obtain ⟨rfl,hcount,-⟩ := locked.2.takes
    have hsome := counts _ m cs (running_eq rfl hcalled) hfits hcount
    obtain ⟨y,rest,hlist⟩ := List.exists_cons_of_ne_nil hsome
    have howner := inv.calls.receiving hold (.inl ⟨ptrs,rfl⟩)
    have hpresent : s.pc p ≠ .absent := by rw [hold]; nofun
    obtain ⟨g,hg⟩ := inv.threads.exists_group hpresent
    have hgroup : s.processes.group p = some (s.owner m) := by
      rw [howner,hg,Processes.tgid_of_group hg]
    have hsent : SentTo tr s m (s.owner m) y := by
      apply inv.own.queued m y
      · exact .inr ⟨p,by rw [hold]; rfl,hgroup⟩
      · rw [hlist]
        exact List.mem_cons_self
    rw [howner] at hsent
    rw [hlist]
    exact hsent.kept inv.threads h hpresent (by rw [hold]; nofun)

lemma ReuseInvariant.returning_stepped (h : Stepped hash32 s act s') (p : Pid) (m : ℕ) (cs : CallState MessagePtr) (x : MessagePtr)
    (head : Bool) (hpc : s'.pc p = .onMailbox m cs .putBack) (adding : cs.adding = some (x,head)) :
    SentTo (tr ++ [(s,act)]) s' m (s'.processes.tgid p) x := by
  rcases h.puttingBack inv.consistent hpc adding with ⟨cs',head',hold,hadding⟩ | ⟨ptrs,hold⟩
  · exact (inv.own.returning p m cs' x head' hold hadding).kept inv.threads h (by rw [hold]; nofun)
      (by rw [hold]; nofun)
  · exact (inv.own.taken p m x ptrs hold).kept inv.threads h (by rw [hold]; nofun)
      (by rw [hold]; nofun)

lemma ReuseInvariant.stopped_stepped (h : Stepped hash32 s act s') (fresh : FreshStart hash32 s act) (m : ℕ)
    (linked : s'.table.Linked m) (stopped : (s'.mailboxes m).stopped ≠ 0) :
    StoppedSince (tr ++ [(s,act)]) s' m := by
  rcases linked_stepped inv.consistent h linked with hold | ⟨rfl,-⟩
  · have howner := owner_stepped h (inv.consistent.linked_lt m hold)
    -- a mailbox that was stopped before
    have hbefore : (s.mailboxes m).stopped ≠ 0 → StoppedSince (tr ++ [(s,act)]) s' m := by
      intro hstopped
      rcases Reached.fresh inv.consistent inv.threads h fresh (.inl hold) with he | ⟨-,hrunning⟩
      · exact (inv.own.stopped m hold hstopped).mono s' howner he _
      · exact absurd hrunning hstopped
    cases h.mailboxStep m with
    | same mailbox => exact hbefore (mailbox ▸ stopped)
    | created new grown mailbox =>
      rw [mailbox] at stopped
      exact absurd rfl stopped
    | @run a cs pr running locked =>
      rw [locked.2.stopped_eq] at stopped
      cases hw : Mailbox.writesStopped cs with
      | none =>
        rw [hw] at stopped
        exact hbefore stopped
      | some st =>
        refine ⟨(s,act),List.mem_append_right _ List.mem_cons_self,a,cs,st,running,hw,?_⟩
        rw [howner]
        exact (births_running h running _).symm
  · cases h.mailboxStep s.mailboxesCreated with
    | same mailbox =>
      rw [mailbox,inv.uncreated _ le_rfl] at stopped
      exact absurd rfl stopped
    | created new grown mailbox =>
      rw [mailbox] at stopped
      exact absurd rfl stopped
    | @run a cs pr running locked =>
      exact absurd (inv.bounds.call_lt (running_eq_some_iff.mp running).2) (Nat.lt_irrefl _)

theorem ReuseInvariant.stepped (h : Stepped hash32 s act s')
    (prior : Run (step hash32) (initial sig) (tr ++ [(s,act)]) s') (fresh : FreshStart hash32 s act)
    (counts : CountsMessages s act) : ReuseInvariant hash32 (tr ++ [(s,act)]) s' where
  consistent := consistent_of_run prior
  bounds := inBounds_of_run prior
  uncreated := uncreated_of_run prior
  threads := threadInvariant_of_run prior
  calls := callInvariant_of_run prior
  own := {
    queued := inv.queued_stepped h fresh
    taken := inv.taken_stepped h counts
    returning := inv.returning_stepped h
    stopped := inv.stopped_stepped h fresh }

omit inv in
theorem reuseInvariant_of_run (h : Run (step hash32) (initial sig) tr s)
    (fresh : ∀ x ∈ tr, FreshStart hash32 x.1 x.2) (counts : ∀ x ∈ tr, CountsMessages x.1 x.2) :
    ReuseInvariant hash32 tr s := by
  induction h with
  | refl =>
    exact ⟨consistent_initial sig,inBounds_initial,fun _ _ => rfl,threadInvariant_initial,
      callInvariant_initial,ownInvariant_initial⟩
  | @snoc tr s act s' prior taken ih =>
    have hprior := ih (fun x hx => fresh x (List.mem_append_left _ hx))
      fun x hx => counts x (List.mem_append_left _ hx)
    exact hprior.stepped (step_stepped taken) (.snoc prior taken) (fresh (s,act) (by simp))
      (counts (s,act) (by simp))

omit inv in
/-- In every run in which new processes start without messages and unstopped, and receives find
messages where the count promises them, every process receives what was sent to itself. -/
theorem ownMessages_of_freshStart (h : Run (step hash32) (initial sig) tr s)
    (fresh : ∀ x ∈ tr, FreshStart hash32 x.1 x.2) (counts : ∀ x ∈ tr, CountsMessages x.1 x.2) :
    OwnMessages hash32 tr := by
  have hinv : ∀ {before t act after}, tr = before ++ (t,act) :: after →
      ReuseInvariant hash32 before t := by
    rintro before t act after rfl
    obtain ⟨u,hbefore,-,-⟩ := h.split_at
    exact reuseInvariant_of_run hbefore (fun x hx => fresh x (List.mem_append_left _ hx))
      fun x hx => counts x (List.mem_append_left _ hx)
  constructor
  · intro before t p o m x ptrs after htr hpc _
    exact (hinv htr).own.taken p m x ptrs hpc
  · intro before t p o pid c m after htr _ hfound hstopped
    exact (hinv htr).own.stopped m (linked_of_get hfound).1 hstopped

omit inv in
/-- Where no mailbox is orphaned, a pid that is free and whose deletion threads are through
starts afresh. -/
theorem freshStart_of_tidy (tidy : TidyInvariant hash32 s) {uid : ℕ}
    (h : Stepped hash32 s (.newProcess p uid) s') (born : s.processes.births p ≠ 0)
    (finished : ∀ m, s.owner m = p → ¬ s.DeletionPending m) :
    FreshStart hash32 s (.newProcess p uid) := by
  have hgone : s.Gone p := by
    refine ⟨born,fun q hq => ?_⟩
    cases h with
    | newProcess absent free =>
      exact absurd hq (tidy.threads.no_member (Processes.group_eq_none.mpr free) q)
  rintro q uid' ⟨⟩ m hfound
  obtain ⟨hlinked,howner⟩ := linked_of_get hfound
  exact absurd howner ((tidy.cleaned hgone finished).unlinked m hlinked)

omit inv in
/-- A process with pid 1001 exits and its mailbox is deleted; another one is started under the
pid, and receives the message that it sends to itself. -/
theorem ownMessages_after_exit : ∃ (tr : List (System × Action)) (s : System),
    Run (step goldenHash32) (initial fun _ => false) tr s ∧ OwnMessages goldenHash32 tr ∧
      s.processes.births 1001 = 2 ∧ s.pc 1001 = .user (some .ok) := by
  obtain ⟨tr,s,hrun,htest⟩ := exists_run_of_execute (step goldenHash32) (initial fun _ => false)
    ([.newProcess 1001 1000,.enter 1001 (.sendMessage 1001 0 false)] ++ runs 1001 6 ++
      [.enter 1001 (.recieveMessage ⟨4,0,4⟩ false)] ++ runs 1001 8 ++ [.exit 1001] ++
      runs 1001 7 ++ runsDeletion 0 7 ++ [.reap 1001] ++
      [.newProcess 1001 1000,.enter 1001 (.sendMessage 1001 0 false)] ++ runs 1001 6 ++
      [.enter 1001 (.recieveMessage ⟨4,0,4⟩ false)] ++ runs 1001 8)
    (fun tr s => tr.all (fun x =>
        (match x.2 with
          | .newProcess p _ => decide (x.1.get goldenHash32 p = none)
          | _ => true) &&
        (x.1.running x.2).all (fun r => decide
          ((x.1.mailboxes r.2.1).messageCount = 0 ∨ (x.1.mailboxes r.2.1).messages ≠ []))) &&
      decide (s.processes.births 1001 = 2 ∧ s.pc 1001 = .user (some .ok)))
    (by decide +kernel)
  rw [Bool.and_eq_true] at htest
  obtain ⟨hall,hend⟩ := htest
  refine ⟨tr,s,hrun,ownMessages_of_freshStart hrun ?_ ?_,of_decide_eq_true hend⟩
  · rintro ⟨t,act⟩ hx p uid rfl m hfound
    obtain ⟨hfree,-⟩ := (Bool.and_eq_true _ _).mp (List.all_eq_true.mp hall _ hx)
    have hnone : t.get goldenHash32 p = none := of_decide_eq_true hfree
    rw [hnone] at hfound
    cases hfound
  · rintro ⟨t,act⟩ hx a m cs hrunning - hcount
    obtain ⟨-,hcounts⟩ := (Bool.and_eq_true _ _).mp (List.all_eq_true.mp hall _ hx)
    dsimp only at hrunning
    rw [hrunning] at hcounts
    exact (of_decide_eq_true hcounts).resolve_left hcount

omit inv in
/-- A process with pid 1001 has sent itself a message when it is killed. No deletion thread is
started; another process is started under the pid and receives the message. -/
theorem exists_predecessor_message : ∃ (tr : List (System × Action)) (s : System),
    Run (step goldenHash32) (initial fun _ => false) tr s ∧ s.deletionsStarted = 0 ∧
      ¬ OwnMessages goldenHash32 tr := by
  obtain ⟨tr,s,hrun,htest⟩ := exists_run_of_execute (step goldenHash32) (initial fun _ => false)
    ([.newProcess 1001 1000,.enter 1001 (.sendMessage 1001 0 false)] ++ runs 1001 6 ++
      [.fatalSignal 1001,.killed 1001] ++ runs 1001 3 ++ [.reap 1001] ++
      [.newProcess 1001 1000,.enter 1001 (.recieveMessage ⟨4,0,4⟩ false)] ++ runs 1001 5)
    (fun tr s => tr.all (fun x =>
        decide (x.1.adds 0 false x.2 = none ∨ x.1.processes.births 1001 = 1)) &&
      decide (s.processes.births 1001 = 2 ∧ s.processes.tgid 1001 = 1001 ∧
        s.pc 1001 = .copyToUser 0 (.object 0) ⟨4,0,4⟩ ∧ (s.messages.object 0).len = 0 ∧
        s.deletionsStarted = 0))
    (by decide +kernel)
  rw [Bool.and_eq_true] at htest
  obtain ⟨hall,hend⟩ := htest
  obtain ⟨hbirths,htgid,hpc,hlen,hnone⟩ := of_decide_eq_true hend
  have hwritable : RecievePtrs.writable ⟨4,0,4⟩ (s.messages.read .clear (.object 0)) = true := by
    simp [RecievePtrs.writable,MessageCache.read,Message.copySize,hlen,sizeofInt]
  have htaken : step goldenHash32 s (.run 1001 .clear) =
      some (s.copyToUser 1001 0 (.object 0) ⟨4,0,4⟩ .clear) := by
    simp [step,runTask,hpc]
  refine ⟨tr ++ [(s,.run 1001 .clear)],_,.snoc hrun htaken,?_,fun hown => ?_⟩
  · rw [← hnone]
    unfold copyToUser
    dsimp only
    split <;> rfl
  · obtain ⟨before,t,act,after,q,i,len,block,rfl,-,-,hadds,hsame⟩ :=
      hown.received tr s 1001 .clear 0 (.object 0) ⟨4,0,4⟩ [] rfl hpc hwritable
    have ht := of_decide_eq_true (List.all_eq_true.mp hall (t,act) (by simp))
    rcases ht with hnever | hone
    · rw [hadds] at hnever
      cases hnever
    · rw [htgid,hbirths] at hsame
      dsimp only at hone
      omega

end System
end ProcessMessagePassing
