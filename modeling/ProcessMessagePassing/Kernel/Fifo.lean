import ProcessMessagePassing.Kernel.Queue
import ProcessMessagePassing.Kernel.Tasks

/-! The order of delivery of one mailbox. A receive whose copies fail puts its message back at
the front in a second section, and other receives can come in between. -/
namespace ProcessMessagePassing
open Concurrency HashTable
open Concurrency.PutBack (Before)

lemma pending_begin (m n : ℕ) (c : Syscall) : (c.begin n).pending m = none := by cases c <;> rfl

lemma pending_resume (m n : ℕ) (r : Ret MessagePtr) (k : Cont) :
    (k.resume n r).pending m = none := by
  cases k with
  | claimed fresh c =>
    cases fresh with
    | true => exact pending_begin m n c
    | false => rfl
  | removed ptrs => cases r <;> rfl
  | added | refused | putBack | stopped | unclaimed | delivered | hook => rfl

lemma pending_off {c : Pc} (m : ℕ) (h : c.mailbox = none) : c.pending m = none := by
  cases c with
  | onMailbox n cs k => cases h
  | _ => rfl

namespace System
variable {hash32 : Pid → ℕ} {sig : Actor → Bool} {s s' : System} {act : Action}
  {tr : List (System × Action)} {m : ℕ} {x : MessagePtr}

/-- No message that was accepted before another is delivered, or queued, behind it. -/
structure Fifo (m : ℕ) (tr : List (System × Action)) (s : System) : Prop where
  delivered : ∀ x y, Before (accepted m tr) x y → ¬ Before (delivered m tr) y x
  queued : ∀ x y, Before (accepted m tr) x y → ¬ Before (s.mailboxes m).messages y x

/-- Every message that the run puts back is put back in order. -/
def PutBacksInOrder (m : ℕ) (tr : List (System × Action)) : Prop :=
  ∀ i x, tr[i]? = some x → putsBackInOrder m (tr.take i) x.1 x.2 = true

lemma putBacksInOrder_snoc (h : PutBacksInOrder m (tr ++ [(s,act)])) :
    PutBacksInOrder m tr ∧ putsBackInOrder m tr s act = true := by
  constructor
  · intro i x hx
    have hi : i < tr.length := (List.getElem?_eq_some_iff.mp hx).1
    have hboth := h i x (by rw [List.getElem?_append_left hi,hx])
    rwa [List.take_append_of_le_length (Nat.le_of_lt hi)] at hboth
  · have hlast := h tr.length (s,act) (by simp)
    rwa [List.take_left'] at hlast
    rfl

/-- A task has a message to add because it had it before, or because it has just made it. -/
lemma pending_stepped (hc : Consistent hash32 s) (hs : Stepped hash32 s act s') {p : Pid}
    (h : (s'.pc p).pending m = some x) : (s.pc p).pending m = some x ∨
      ∃ n o len block, x = .object n ∧ act = .run p o ∧ s.pc p = .createMessage m len block ∧
        s.messages.create (s.processes.tgid p) len o = (s'.messages,.ok n) := by
  cases hs.taskStep p with
  | rests moves pc =>
    rw [pc] at h
    exact .inl h
  | arrives pc next | leaves pc next | enters action pc next | valid action pc valid next
  | invalid action pc next | found action pc found next
  | created action pc missing memory owner next | outOfMemory action pc next
  | refused action pc exiting next | messageFailed action pc failed next
  | countFault action pc fault next | copied action pc writable next
  | copyFault action pc fault next | destroyed action pc messages next
  | removalFound action pc found next =>
    rw [next] at h
    cases h
  | ends pc next exits off | exiting pc next old new off =>
    rw [next,pending_off m off] at h
    cases h
  | granted action pc alive next =>
    rw [next,pending_begin] at h
    cases h
  | countCopied action pc writable next =>
    rw [next] at h
    split at h <;> cases h
  | returned action pc locked next =>
    rw [next,pending_resume] at h
    cases h
  | @messageCreated o n len block x' action pc made next =>
    right
    rw [next] at h
    simp only [Pc.pending,CallState.adding,Option.map_some] at h
    split_ifs at h with hn
    cases h
    subst n
    exact ⟨x',o,len,block,rfl,action,pc,made⟩
  | @stays o n cs k pr cs' action pc locked stays next =>
    left
    have hfits := hc.fits p
    rw [next] at h
    rw [pc] at hfits ⊢
    cases k with
    | added =>
      obtain ⟨y,hy⟩ := hfits
      simp only [Pc.pending,locked.2.stays_adding hy stays] at h
      simpa only [Pc.pending,hy] using h
    | _ => cases h

/-- A message is accepted from the task that had it to add, which then has none. -/
lemma pending_of_adds (hc : Consistent hash32 s) (hs : Stepped hash32 s act s')
    (h : s.adds m false act = some x) :
    ∃ p, act.moves = some p ∧ (s.pc p).pending m = some x ∧ (s'.pc p).pending m = none := by
  obtain ⟨⟨a,n,cs⟩,running,-⟩ := Option.bind_eq_some_iff.mp h
  cases a with
  | kthread k =>
    obtain ⟨m',pr,deletion,-,locked,-⟩ := hs.kthread_section running
    obtain ⟨-,-,hadding⟩ := (adds_eq_some running locked).mp h
    have hdestroys : cs.Destroys := hc.destroys k _ deletion
    cases cs with
    | addMessage | addWaiting => exact False.elim hdestroys
    | _ => cases hadding
  | task p =>
    obtain ⟨k,pr,ts⟩ := hs.task_section running
    obtain ⟨rfl,rfl,hadding⟩ := (adds_eq_some running ts.locked).mp h
    have hfits := hc.fits p
    rw [ts.pc] at hfits
    refine ⟨p,ts.moves,?_,?_⟩
    · rw [ts.pc]
      cases k with
      | added => simp [Pc.pending,hadding]
      | putBack =>
        obtain ⟨y,hy⟩ := hfits
        rw [hadding] at hy
        cases hy
      | removed => rcases hfits with ⟨block,rfl⟩ | rfl <;> cases hadding
      | claimed | refused | stopped | unclaimed | delivered | hook => cases hfits; cases hadding
    · rcases ts.next with ⟨cs',hstays,-⟩ | ⟨r,-,hnext⟩
      · cases hstays
      · rw [hnext,pending_resume]

/-- Only a flush makes the count of a mailbox differ from its list. -/
lemma exact_stepped (exact : (s.mailboxes m).Exact) (hs : Stepped hash32 s act s')
    (unflushed : ∀ xs, s.outcome act ≠ some (m,.flushed xs)) : (s'.mailboxes m).Exact := by
  cases hs.mailboxStep m with
  | same mailbox => exact mailbox ▸ exact
  | created _ _ mailbox => exact mailbox ▸ Mailbox.exact_create _
  | run running locked =>
    apply locked.2.exact exact
    rintro xs rfl
    exact absurd (outcome_eq running locked) (unflushed xs)

variable (inv : FifoInvariant m tr s)
include inv

/-- Every accepted message has been created, and what a receive takes has been accepted. -/
lemma FifoInvariant.known_stepped (hc : Consistent hash32 s) (hs : Stepped hash32 s act s') :
    ∀ y ∈ accepted m (tr ++ [(s,act)]), s'.messages.Known y := by
  intro y hy
  rw [accepted_snoc] at hy
  rcases List.mem_append.mp hy with hy | hy
  · exact (inv.known y hy).mono hs.extends
  · obtain ⟨p,-,hp,-⟩ := pending_of_adds hc hs (Option.mem_toList.mp hy)
    exact (inv.pending p y hp).2.mono hs.extends

lemma FifoInvariant.taken_stepped (hs : Stepped hash32 s act s') (p : Pid) (y : MessagePtr)
    (ptrs : RecievePtrs) (h : s'.pc p = .copyToUser m y ptrs) :
    y ∈ accepted m (tr ++ [(s,act)]) := by
  rw [accepted_snoc]
  apply List.mem_append_left
  rcases hs.copying h with hold | ⟨e,o,cs,rfl,-,-,locked⟩
  · exact inv.taken p y ptrs hold
  · obtain ⟨z,hz,rfl⟩ := locked.locked.took inv.exact
    exact inv.ordered.sublist.subset (List.mem_append_right _ hz)

/-- What a task has to add is new, and no other task has it. -/
lemma FifoInvariant.pending_stepped (hc : Consistent hash32 s) (hs : Stepped hash32 s act s')
    (p : Pid) (y : MessagePtr) (h : (s'.pc p).pending m = some y) :
    y ∉ accepted m (tr ++ [(s,act)]) ∧ s'.messages.Known y := by
  rw [accepted_snoc,List.mem_append,not_or]
  rcases System.pending_stepped hc hs h with hold | ⟨n,o,len,block,rfl,rfl,hpc,hmade⟩
  · obtain ⟨hnew,hknown⟩ := inv.pending p y hold
    refine ⟨⟨hnew,fun hy => ?_⟩,hknown.mono hs.extends⟩
    obtain ⟨q,-,hq,hq'⟩ := pending_of_adds hc hs (Option.mem_toList.mp hy)
    rw [inv.pendingOnce q p y hq hold] at hq'
    rw [hq'] at h
    cases h
  · obtain ⟨rfl,hcreated⟩ := MessageCache.create_ok hmade
    refine ⟨⟨fun hy => ?_,?_⟩,s.messages.created,by omega,rfl⟩
    · obtain ⟨n,hn,he⟩ := inv.known _ hy
      cases he
      exact Nat.lt_irrefl _ hn
    · have hidle : s.running (.run p o) = none := by
        simp [running,Action.actor,call_task hpc,Pc.call]
      rw [adds_of_idle hidle]
      exact List.not_mem_nil

lemma FifoInvariant.pendingOnce_stepped (hc : Consistent hash32 s) (hs : Stepped hash32 s act s')
    (p q : Pid) (y : MessagePtr) (hp : (s'.pc p).pending m = some y)
    (hq : (s'.pc q).pending m = some y) : p = q := by
  -- a message that was just made has a number that no task had before
  have hfresh : ∀ r, (s.pc r).pending m ≠ some (.object s.messages.created) := by
    intro r hr
    obtain ⟨n,hn,he⟩ := (inv.pending r _ hr).2
    cases he
    exact Nat.lt_irrefl _ hn
  rcases System.pending_stepped hc hs hp with hp | ⟨n,o,len,block,rfl,rfl,-,hmade⟩
  · rcases System.pending_stepped hc hs hq with hq | ⟨n,o,len,block,rfl,rfl,-,hmade⟩
    · exact inv.pendingOnce p q y hp hq
    · rw [(MessageCache.create_ok hmade).1] at hp
      exact absurd hp (hfresh p)
  · rcases System.pending_stepped hc hs hq with hq | ⟨n',o',len',block',-,hact,-,-⟩
    · rw [(MessageCache.create_ok hmade).1] at hq
      exact absurd hq (hfresh q)
    · cases hact
      rfl

theorem FifoInvariant.stepped (hc : Consistent hash32 s) (hu : Uncreated s)
    (hs : Stepped hash32 s act s') (unflushed : ∀ xs, s.outcome act ≠ some (m,.flushed xs))
    (guard : putsBackInOrder m tr s act = true) : FifoInvariant m (tr ++ [(s,act)]) s' where
  known := inv.known_stepped hc hs
  taken := inv.taken_stepped hs
  pending := inv.pending_stepped hc hs
  pendingOnce := inv.pendingOnce_stepped hc hs
  exact := exact_stepped inv.exact hs unflushed
  ordered := by
    rcases inv.queueView_stepped hc hu hs unflushed guard with he | hstep
    · exact he ▸ inv.ordered
    · exact inv.ordered.step hstep

omit inv in
/-- A mailbox is not flushed before it is stopped. -/
lemma not_flushed_of_running (h : Run (step hash32) (initial sig) tr s)
    (running : (s.mailboxes m).stopped = 0) (act : Action) (xs : List MessagePtr) :
    s.outcome act ≠ some (m,.flushed xs) := by
  intro hout
  obtain ⟨⟨a,n,cs⟩,hrun,he⟩ := Option.map_eq_some_iff.mp hout
  obtain ⟨rfl,hpr⟩ := Prod.mk.inj he
  have hcalled := (running_eq_some_iff.mp hrun).2
  have hlocked := Mailbox.criticalSection_locked a (s.signalPending a) (s.mailboxes n) cs
  rw [show _ = Progress.flushed xs from hpr] at hlocked
  obtain ⟨hcs,-,-⟩ := hlocked.flushed_when
  obtain ⟨pending,tr',hprojected⟩ := project_run h ((inBounds_of_run h).call_lt hcalled)
  have hdestroying : MailboxSystem.Destroying ((s.project n).calls a) := by
    have hcalls : (s.project n).calls a = some cs := callsOn_eq_some_iff.mpr hcalled
    rw [hcalls]
    rcases hcs with rfl | rfl <;> simp [MailboxSystem.Destroying]
  exact (MailboxSystem.stopInvariant_of_run hprojected).destroying a hdestroying running

omit inv in
theorem fifoInvariant_of_run (h : Run (step hash32) (initial sig) tr s)
    (running : ∀ t ∈ tr.map Prod.fst ++ [s], (t.mailboxes m).stopped = 0)
    (inOrder : PutBacksInOrder m tr) : FifoInvariant m tr s := by
  induction h with
  | refl => exact fifoInvariant_initial
  | @snoc tr s act s' prior taken ih =>
    have hrunning : ∀ t ∈ tr.map Prod.fst ++ [s], (t.mailboxes m).stopped = 0 := by
      intro t ht
      apply running t
      rw [List.map_append]
      exact List.mem_append_left _ ht
    obtain ⟨hinOrder,hlast⟩ := putBacksInOrder_snoc inOrder
    have hinv := ih hrunning hinOrder
    exact hinv.stepped (consistent_of_run prior) (uncreated_of_run prior) (step_stepped taken)
      (not_flushed_of_running prior (hrunning s (by simp)) act) hlast

omit inv in
/-- In every run in which the mailbox is not stopped and messages are put back in order, it
delivers first in, first out. -/
theorem fifo_of_putBacks_in_order (h : Run (step hash32) (initial sig) tr s)
    (running : ∀ t ∈ tr.map Prod.fst ++ [s], (t.mailboxes m).stopped = 0)
    (inOrder : PutBacksInOrder m tr) : Fifo m tr s := by
  have hordered := (fifoInvariant_of_run h running inOrder).ordered
  constructor
  · intro x y hxy hyx
    exact hordered.not_before hxy (hyx.sublist (List.sublist_append_left _ _))
  · intro x y hxy hyx
    exact hordered.not_before hxy (hyx.sublist (List.sublist_append_right _ _))

omit inv in
lemma delivers_eq_some (h : s.delivers m act = some x) : ∃ p o, act = .run p o ∧
    s.outcome act = some (m,.returned (.message (.node x))) ∧
      (s.pc p).canDeliver (s.messages.read o x) = true := by
  unfold delivers at h
  split at h
  · next p o n y he =>
    split_ifs at h with hif
    cases h
    obtain ⟨rfl,hcan⟩ := hif
    exact ⟨p,o,rfl,he,hcan⟩
  · cases h

omit inv in
/-- A receive whose pointers are good when it takes the message finds them good when it copies
the message, whatever happens in between. -/
theorem copied_of_delivers (known : s.messages.Known x) (hs : Stepped hash32 s act s')
    (h : s.delivers m act = some x) {t : System} {tr' : List (System × Action)}
    (later : Run (step hash32) s' tr' t) (still : ∀ y ∈ tr', y.2.moves ≠ act.moves) :
    ∃ p ptrs, t.pc p = .copyToUser m x ptrs ∧
      ∀ o, ptrs.writable (t.messages.read o x) = true := by
  obtain ⟨p,o,rfl,hout,hcan⟩ := delivers_eq_some h
  obtain ⟨⟨a,n,cs⟩,running,he⟩ := Option.map_eq_some_iff.mp hout
  obtain ⟨rfl,hpr⟩ := Prod.mk.inj he
  obtain rfl : a = .task p := Option.some.inj (running_eq_some_iff.mp running).1.symm
  obtain ⟨k,pr,ts⟩ := hs.task_section running
  rw [ts.locked.result] at hpr
  obtain rfl : pr = .returned (.message (.node x)) := hpr
  rw [ts.pc] at hcan
  cases k with
  | removed ptrs =>
    refine ⟨p,ptrs,?_,fun o' => ?_⟩
    · rcases ts.next with ⟨cs',hstays,-⟩ | ⟨r,hr,hnext⟩
      · cases hstays
      · cases hr
        rw [pc_of_run later still,hnext]
        rfl
    · rw [known.read_eq (hs.extends.trans (extends_of_run later)) o o']
      exact hcan
  | _ => cases hcan

omit inv in
/-- A message that is put back out of order is at once ahead of one accepted before it, or
behind a delivered one that was accepted after it. -/
theorem not_ordered_of_putsBack (hs : Stepped hash32 s act s') (back : s.adds m true act = some x)
    (outOfOrder : ¬ (queueView m tr s).InOrder x) :
    ¬ PutBack.Ordered (queueView m (tr ++ [(s,act)]) s') := by
  obtain ⟨a,cs,running,locked,hadding⟩ := hs.section_of_adds back
  have hadds : s.adds m false act = none := by
    refine adds_eq_none running locked (.inr (.inr fun y hy => ?_))
    rw [hadding] at hy
    cases hy
  have hdelivers : s.delivers m act = none :=
    delivers_eq_none running locked (.inr fun e he => by cases he)
  have hview : queueView m (tr ++ [(s,act)]) s' = { queueView m tr s with
      queue := x :: (queueView m tr s).queue
      held := (queueView m tr s').held } := by
    ext1
    case accepted => exact accepted_kept hadds
    case delivered => exact delivered_kept hdelivers
    case queue => exact hs.messages_of_adds back
    case held => rfl
  rw [hview]
  exact PutBack.not_ordered_of_putBack outOfOrder _

omit inv in
lemma putBacksInOrder_of_range
    (h : (List.range tr.length).all (fun i =>
      (tr[i]?).all fun x => putsBackInOrder m (tr.take i) x.1 x.2) = true) :
    PutBacksInOrder m tr := by
  intro i x hx
  have hi : i < tr.length := (List.getElem?_eq_some_iff.mp hx).1
  have hall := List.all_eq_true.mp h i (List.mem_range.mpr hi)
  rwa [hx] at hall

omit inv in
/-- A receive of process 1001 fails for its bad pointer and puts the first of two messages back;
then both are received. -/
theorem fifo_after_fault : ∃ (tr : List (System × Action)) (s : System),
    Run (step goldenHash32) (initial fun _ => false) tr s ∧ Fifo 0 tr s ∧
      delivered 0 tr = [.object 0,.object 1] := by
  obtain ⟨tr,s,hrun,htest⟩ := exists_run_of_execute (step goldenHash32) (initial fun _ => false)
    ([.newProcess 1001 1000] ++
      [.enter 1001 (.sendMessage 1001 0 false)] ++ runs 1001 6 ++
      [.enter 1001 (.sendMessage 1001 0 false)] ++ runs 1001 7 ++
      [.enter 1001 (.recieveMessage ⟨0,0,4⟩ false)] ++ runs 1001 8 ++
      [.enter 1001 (.recieveMessage ⟨4,0,4⟩ false)] ++ runs 1001 8 ++
      [.enter 1001 (.recieveMessage ⟨4,0,4⟩ false)] ++ runs 1001 8)
    (fun tr s => (tr.map Prod.fst ++ [s]).all (fun t => decide ((t.mailboxes 0).stopped = 0)) &&
      (List.range tr.length).all (fun i =>
        (tr[i]?).all fun x => putsBackInOrder 0 (tr.take i) x.1 x.2) &&
      decide (delivered 0 tr = [.object 0,.object 1])) (by decide +kernel)
  rw [Bool.and_eq_true,Bool.and_eq_true] at htest
  obtain ⟨⟨hrunning,hinOrder⟩,hdelivered⟩ := htest
  refine ⟨tr,s,hrun,fifo_of_putBacks_in_order hrun ?_ (putBacksInOrder_of_range hinOrder),
    of_decide_eq_true hdelivered⟩
  intro t ht
  exact of_decide_eq_true (List.all_eq_true.mp hrunning t ht)

omit inv in
/-- Two receives of process 1001 overlap: the first takes the first message and cannot deliver
it, the second takes the second message and succeeds, and then the first message is put back and
received. -/
theorem exists_overtaken : ∃ (tr : List (System × Action)) (s : System),
    Run (step goldenHash32) (initial fun _ => false) tr s ∧
      (∀ t ∈ tr.map Prod.fst ++ [s], (t.mailboxes 0).stopped = 0) ∧
      (∀ x ∈ tr, ∀ a, x.2 ≠ .signal a) ∧ ¬ Fifo 0 tr s := by
  obtain ⟨tr,s,hrun,htest⟩ := exists_run_of_execute (step goldenHash32) (initial fun _ => false)
    ([.newProcess 1001 1000,.clone 1001 1002] ++
      [.enter 1001 (.sendMessage 1001 0 false)] ++ runs 1001 6 ++
      [.enter 1001 (.sendMessage 1001 0 false)] ++ runs 1001 7 ++
      [.enter 1001 (.recieveMessage ⟨0,0,4⟩ false)] ++ runs 1001 6 ++
      [.enter 1002 (.recieveMessage ⟨4,0,4⟩ false)] ++ runs 1002 8 ++ runs 1001 2 ++
      [.enter 1002 (.recieveMessage ⟨4,0,4⟩ false)] ++ runs 1002 8)
    (fun tr s => (tr.map Prod.fst ++ [s]).all (fun t => decide ((t.mailboxes 0).stopped = 0)) &&
      tr.all (fun x => !x.2.signals) &&
      decide (accepted 0 tr = [.object 0,.object 1] ∧ delivered 0 tr = [.object 1,.object 0]))
    (by decide +kernel)
  rw [Bool.and_eq_true,Bool.and_eq_true] at htest
  obtain ⟨⟨hrunning,hquiet⟩,horders⟩ := htest
  obtain ⟨haccepted,hdelivered⟩ := of_decide_eq_true horders
  refine ⟨tr,s,hrun,?_,?_,fun hfifo => ?_⟩
  · intro t ht
    exact of_decide_eq_true (List.all_eq_true.mp hrunning t ht)
  · intro x hx a ha
    have hx' := List.all_eq_true.mp hquiet x hx
    rw [ha] at hx'
    cases hx'
  · refine hfifo.delivered (.object 0) (.object 1) ?_ ?_
    · rw [haccepted]
      exact List.Sublist.refl _
    · rw [hdelivered]
      exact List.Sublist.refl _

end System
end ProcessMessagePassing
