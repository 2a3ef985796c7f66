import ProcessMessagePassing.Concurrency.PutBack
import ProcessMessagePassing.Kernel.Flush
import ProcessMessagePassing.Kernel.Tasks

/-! A mailbox as a queue with put-backs: what its sends and receives do to its list, in the words
of the abstract queue. -/
namespace ProcessMessagePassing
open Concurrency HashTable
open Concurrency.PutBack (Before)

/-- The message that a sender has still to add to the mailbox. -/
def Pc.pending (m : ℕ) : Pc → Option MessagePtr
  | .onMailbox n cs .added => if n = m then cs.adding.map Prod.fst else none
  | _ => none

/-- The message of the mailbox that a receive will put back, as its copies cannot succeed. -/
def Pc.heldBack (m : ℕ) (messages : MessageCache) : Pc → Option MessagePtr
  | .copyToUser n x ptrs =>
    if n = m ∧ ptrs.writable (messages.read .clear x) = false then some x else none
  | .onMailbox n cs .putBack => if n = m then cs.adding.map Prod.fst else none
  | _ => none

/-- All three pointers of the receive are good for the message. -/
def Pc.canDeliver (message : Message) : Pc → Bool
  | .onMailbox _ _ (.removed ptrs) => ptrs.writable message
  | _ => false

namespace System
variable {hash32 : Pid → ℕ} {sig : Actor → Bool} {s s' : System} {act : Action}
  {tr : List (System × Action)} {a : Actor} {m n : ℕ} {cs : CallState MessagePtr}
  {x : MessagePtr}

/-- The message that an action adds to the mailbox, at its head or at its tail. -/
def adds (m : ℕ) (head : Bool) (s : System) (act : Action) : Option MessagePtr :=
  (s.running act).bind fun (_,_,cs) =>
    if s.outcome act = some (m,.returned (.code .ok)) then
      (cs.adding.filter fun y => y.2 == head).map Prod.fst
    else none

/-- The message that an action takes off the mailbox for a receive that will deliver it. -/
def delivers (m : ℕ) (s : System) (act : Action) : Option MessagePtr :=
  match act, s.outcome act with
  | .run p o, some (n,.returned (.message (.node x))) =>
    if n = m ∧ (s.pc p).canDeliver (s.messages.read o x) = true then some x else none
  | _, _ => none

/-- The messages that sends have added to the mailbox, in their order. -/
def accepted (m : ℕ) (tr : List (System × Action)) : List MessagePtr :=
  tr.filterMap fun x => x.1.adds m false x.2

/-- The messages that successful receives have taken from the mailbox, in their order. -/
def delivered (m : ℕ) (tr : List (System × Action)) : List MessagePtr :=
  tr.filterMap fun x => x.1.delivers m x.2

/-- The queue with put-backs that a mailbox stands for. -/
def queueView (m : ℕ) (tr : List (System × Action)) (s : System) : PutBack.State Pid MessagePtr where
  accepted := accepted m tr
  delivered := delivered m tr
  queue := (s.mailboxes m).messages
  held p := (s.pc p).heldBack m s.messages

/-- If the step puts a message back, nothing accepted before it is on the list and nothing
accepted after it has been taken by a receive that succeeds. -/
def putsBackInOrder (m : ℕ) (tr : List (System × Action)) (s : System) (act : Action) : Bool :=
  (s.adds m true act).all fun x =>
    decide ((∀ y ∈ (s.mailboxes m).messages, ¬ Before (accepted m tr) y x) ∧
      ∀ y ∈ delivered m tr, ¬ Before (accepted m tr) x y)

lemma adds_of_idle (idle : s.running act = none) (head : Bool) : s.adds m head act = none := by
  simp [adds,idle]

lemma delivers_of_idle (idle : s.running act = none) : s.delivers m act = none := by
  have hnone : s.outcome act = none := by simp [outcome,idle]
  simp only [delivers,hnone]

lemma accepted_snoc : accepted m (tr ++ [(s,act)]) = accepted m tr ++ (s.adds m false act).toList := by
  rw [accepted,List.filterMap_append]
  rcases h : s.adds m false act with _ | x <;> simp [accepted,h]

lemma delivered_snoc : delivered m (tr ++ [(s,act)]) = delivered m tr ++ (s.delivers m act).toList := by
  rw [delivered,List.filterMap_append]
  rcases h : s.delivers m act with _ | x <;> simp [delivered,h]

lemma accepted_kept (h : s.adds m false act = none) :
    accepted m (tr ++ [(s,act)]) = accepted m tr := by
  rw [accepted_snoc,h]
  exact List.append_nil _

lemma delivered_kept (h : s.delivers m act = none) :
    delivered m (tr ++ [(s,act)]) = delivered m tr := by
  rw [delivered_snoc,h]
  exact List.append_nil _

/-- A section adds the message of its caller when it returns zero. -/
lemma adds_eq_some {head : Bool} {m' : Mailbox Actor MessagePtr} {pr : Progress MessagePtr}
    (running : s.running act = some (a,n,cs)) (locked : s.Section a n cs m' pr) :
    s.adds m head act = some x ↔
      n = m ∧ pr = .returned (.code .ok) ∧ cs.adding = some (x,head) := by
  have hout := outcome_eq running locked
  simp only [adds,running,Option.bind_some,hout]
  constructor
  · intro h
    split_ifs at h with he
    obtain ⟨⟨y,e⟩,hy,rfl⟩ := Option.map_eq_some_iff.mp h
    obtain ⟨hadding,heq⟩ := Option.filter_eq_some_iff.mp hy
    cases he
    obtain rfl : e = head := eq_of_beq heq
    exact ⟨rfl,rfl,hadding⟩
  · rintro ⟨rfl,rfl,hadding⟩
    simp [hadding]

lemma adds_eq_none {head : Bool} {m' : Mailbox Actor MessagePtr} {pr : Progress MessagePtr}
    (running : s.running act = some (a,n,cs)) (locked : s.Section a n cs m' pr)
    (other : n ≠ m ∨ pr ≠ .returned (.code .ok) ∨ ∀ x, cs.adding ≠ some (x,head)) :
    s.adds m head act = none := by
  rw [Option.eq_none_iff_forall_ne_some]
  intro x hx
  obtain ⟨hn,hpr,hadding⟩ := (adds_eq_some running locked).mp hx
  rcases other with h | h | h
  · exact h hn
  · exact h hpr
  · exact h x hadding

/-- The section that has added a message. -/
lemma Stepped.section_of_adds {head : Bool} (hs : Stepped hash32 s act s')
    (h : s.adds m head act = some x) : ∃ a cs, s.running act = some (a,m,cs) ∧
      s.Section a m cs (s'.mailboxes m) (.returned (.code .ok)) ∧ cs.adding = some (x,head) := by
  obtain ⟨⟨a,n,cs⟩,running,-⟩ := Option.bind_eq_some_iff.mp h
  obtain ⟨pr,locked⟩ := hs.section_of_running running
  obtain ⟨rfl,rfl,hadding⟩ := (adds_eq_some running locked).mp h
  exact ⟨a,cs,running,locked,hadding⟩

lemma Stepped.messages_of_adds {head : Bool} (hs : Stepped hash32 s act s')
    (h : s.adds m head act = some x) : (s'.mailboxes m).messages =
      if head then x :: (s.mailboxes m).messages else (s.mailboxes m).messages ++ [x] := by
  obtain ⟨a,cs,-,locked,hadding⟩ := hs.section_of_adds h
  rcases locked.2.added hadding with ⟨-,hlist⟩ | ⟨c,hc,hr,-⟩
  · exact hlist
  · cases hr
    exact absurd rfl hc

/-- A send adds at the tail, and a receive that puts its message back at the head. -/
lemma Stepped.adder {head : Bool} (hs : Stepped hash32 s act s') (hc : Consistent hash32 s)
    (h : s.adds m head act = some x) : ∃ p cs, act.moves = some p ∧
      s.running act = some (.task p,m,cs) ∧ cs.adding = some (x,head) ∧
      ((head = false ∧ s.pc p = .onMailbox m cs .added) ∨
        head = true ∧ s.pc p = .onMailbox m cs .putBack) := by
  obtain ⟨a,cs,running,-,hadding⟩ := hs.section_of_adds h
  obtain ⟨actor,called⟩ := running_eq_some_iff.mp running
  obtain ⟨p,rfl,hpc⟩ := adding_cases hc called hadding
  exact ⟨p,cs,Action.moves_of_actor actor,running,hadding,hpc⟩

/-- What is on the list after a step was on it before, or the step has added it. -/
lemma Stepped.queued_cases (hs : Stepped hash32 s act s') (hx : x ∈ (s'.mailboxes m).messages) :
    x ∈ (s.mailboxes m).messages ∨ ∃ head, s.adds m head act = some x := by
  cases hs.mailboxStep m with
  | same mailbox => exact .inl (mailbox ▸ hx)
  | created new grown mailbox =>
    rw [mailbox] at hx
    cases hx
  | run running locked =>
    rcases locked.2.mem_messages hx with hbefore | ⟨head,hadding,rfl⟩
    · exact .inl hbefore
    · exact .inr ⟨head,(adds_eq_some running locked).mpr ⟨rfl,rfl,hadding⟩⟩

lemma delivers_eq_none {m' : Mailbox Actor MessagePtr} {pr : Progress MessagePtr}
    (running : s.running act = some (a,n,cs)) (locked : s.Section a n cs m' pr)
    (other : n ≠ m ∨ ∀ e, pr ≠ .returned (.message e)) : s.delivers m act = none := by
  have hout := outcome_eq running locked
  unfold delivers
  rw [hout]
  split
  · next he =>
    cases he
    rcases other with h | h
    · exact if_neg fun hn => h hn.1
    · exact absurd rfl (h _)
  · rfl

/-- What holds of the messages of one mailbox in every run in which it is not flushed. -/
structure FifoInvariant (m : ℕ) (tr : List (System × Action)) (s : System) : Prop where
  known : ∀ x ∈ accepted m tr, s.messages.Known x
  taken : ∀ p x ptrs, s.pc p = .copyToUser m x ptrs → x ∈ accepted m tr
  pending : ∀ p x, (s.pc p).pending m = some x → x ∉ accepted m tr ∧ s.messages.Known x
  pendingOnce : ∀ p q x, (s.pc p).pending m = some x → (s.pc q).pending m = some x → p = q
  exact : (s.mailboxes m).Exact
  ordered : PutBack.Ordered (queueView m tr s)

theorem fifoInvariant_initial : FifoInvariant m [] (initial sig) where
  known x h := by cases h
  taken p x ptrs h := by cases h
  pending p x h := by cases h
  pendingOnce p q x h := by cases h
  exact := Mailbox.exact_create 0
  ordered :=
    { nodup := List.nodup_nil
      sublist := List.nil_sublist _
      held_mem := fun h => by cases h
      held_new := fun h => by cases h
      held_unique := fun h => by cases h }

/-- The contents of the message that a receive copies do not change. -/
lemma heldBack_eq {c : Pc} {h h' : MessageCache} (hh : h.Extends h')
    (known : ∀ x ptrs, c = .copyToUser m x ptrs → h.Known x) :
    c.heldBack m h' = c.heldBack m h := by
  cases c with
  | copyToUser n x ptrs =>
    by_cases hn : n = m
    · subst n
      simp only [Pc.heldBack,(known x ptrs rfl).read_eq hh .clear .clear]
    · simp [Pc.heldBack,hn]
  | onMailbox n cs k => cases k <;> rfl
  | _ => rfl

lemma heldBack_begin (h : MessageCache) (n : ℕ) (c : Syscall) :
    (c.begin n).heldBack m h = none := by cases c <;> rfl

lemma heldBack_resume {h : MessageCache} {r : Ret MessagePtr} {k : Cont}
    (other : n ≠ m ∨ ∀ e, r ≠ .message e) : (k.resume n r).heldBack m h = none := by
  cases k with
  | claimed fresh c =>
    cases fresh with
    | true => exact heldBack_begin h n c
    | false => rfl
  | removed ptrs =>
    cases r with
    | code c => rfl
    | message e =>
      rcases other with hn | hr
      · exact if_neg fun hm => hn hm.1
      · exact absurd rfl (hr e)
  | added | refused | putBack | stopped | unclaimed | delivered | hook => rfl

variable (inv : FifoInvariant m tr s)
include inv

lemma FifoInvariant.known_taken (p : Pid) (x : MessagePtr) (ptrs : RecievePtrs)
    (h : s.pc p = .copyToUser m x ptrs) : s.messages.Known x :=
  inv.known x (inv.taken p x ptrs h)

/-- A task that does not run a section of the mailbox holds back what it held back before. -/
lemma FifoInvariant.heldBack_move (hs : Stepped hash32 s act s') {p : Pid}
    (moves : act.moves = some p) (off : ∀ a cs, s.running act ≠ some (a,m,cs)) :
    (s'.pc p).heldBack m s'.messages = (s.pc p).heldBack m s.messages := by
  cases hs with
  | newProcess pc | clone _ _ pc | enter pc | exit pc | exitGroup pc | killed pc | reap pc
  | valid pc | invalid pc | found pc | outOfMemory pc | refused pc | messageCreated pc | messageFailed pc | countFault pc | destroyed pc | lastThread pc
  | otherThread pc | removalFound pc | removalMissing pc | deletionStarted pc
  | deletionFailed pc | realExit pc | decrementLive pc | die pc =>
    cases moves
    rw [pc,setPc_self]
    rfl
  | created pc =>
    cases moves
    rw [pc,createMailbox,setPc_self]
    rfl
  | granted pc =>
    cases moves
    rw [pc,setPc_self]
    exact heldBack_begin _ _ _
  | countCopied pc =>
    cases moves
    rw [pc,setPc_self]
    split <;> rfl
  | @copied p o n x ptrs pc writable =>
    cases moves
    rw [pc,setPc_self]
    refine (if_neg ?_).symm
    rintro ⟨rfl,fault⟩
    rw [(inv.known_taken p x ptrs pc).read_eq (.refl _) o .clear,writable] at fault
    cases fault
  | @copyFault p o n x ptrs pc fault =>
    cases moves
    rw [pc,setPc_self]
    by_cases hn : n = m
    · subst n
      rw [← (inv.known_taken p x ptrs pc).read_eq (.refl _) o .clear] at fault
      simp [Pc.heldBack,fault,CallState.adding]
    · simp [Pc.heldBack,hn]
  | @stays p o n cs k m' pr cs' pc locked stays =>
    cases moves
    have hn : n ≠ m := fun hn => off _ cs (running_eq rfl (hn ▸ call_task pc))
    rw [pc,setPc_self]
    cases k <;> simp [Pc.heldBack,hn]
  | @returned p o n cs k m' r pc locked =>
    cases moves
    have hn : n ≠ m := fun hn => off _ cs (running_eq rfl (hn ▸ call_task pc))
    rw [pc,returnFrom,setPc_self,heldBack_resume (.inl hn)]
    cases k <;> simp [Pc.heldBack,hn]
  | fatalSignal | signal | handle | ownerRead | stillValid | exited | unlinked | destroyStays
  | flushed | deleted => cases moves

lemma FifoInvariant.heldBack_other (hs : Stepped hash32 s act s') {q : Pid}
    (rests : act.moves ≠ some q) :
    (s'.pc q).heldBack m s'.messages = (s.pc q).heldBack m s.messages := by
  rw [hs.pc_of_ne rests]
  exact heldBack_eq hs.extends (inv.known_taken q)

omit inv in
lemma queueView_eq (adds : s.adds m false act = none) (delivers : s.delivers m act = none)
    (queue : (s'.mailboxes m).messages = (s.mailboxes m).messages)
    (held : ∀ q, (s'.pc q).heldBack m s'.messages = (s.pc q).heldBack m s.messages) :
    queueView m (tr ++ [(s,act)]) s' = queueView m tr s := by
  ext1
  case accepted => exact accepted_kept adds
  case delivered => exact delivered_kept delivers
  case queue => exact queue
  case held => funext q; exact held q

omit inv in
/-- A step that is no section of the mailbox leaves its list alone. -/
lemma messages_off (hu : Uncreated s) (hs : Stepped hash32 s act s')
    (off : ∀ a cs, s.running act ≠ some (a,m,cs)) :
    (s'.mailboxes m).messages = (s.mailboxes m).messages := by
  cases hs.mailboxStep m with
  | same mailbox => rw [mailbox]
  | created new _ mailbox =>
    rw [mailbox,hu m (Nat.le_of_eq new.symm)]
    rfl
  | run running => exact absurd running (off _ _)

omit inv in
lemma events_off (hs : Stepped hash32 s act s') (off : ∀ a cs, s.running act ≠ some (a,m,cs))
    (head : Bool) : s.adds m head act = none ∧ s.delivers m act = none := by
  cases hrun : s.running act with
  | none => exact ⟨adds_of_idle hrun head,delivers_of_idle hrun⟩
  | some y =>
    obtain ⟨a,n,cs⟩ := y
    have hn : n ≠ m := fun hn => off a cs (hn ▸ hrun)
    obtain ⟨pr,locked⟩ := hs.section_of_running hrun
    exact ⟨adds_eq_none hrun locked (.inl hn),delivers_eq_none hrun locked (.inl hn)⟩

lemma FifoInvariant.queueView_off (hu : Uncreated s) (hs : Stepped hash32 s act s')
    (off : ∀ a cs, s.running act ≠ some (a,m,cs)) :
    queueView m (tr ++ [(s,act)]) s' = queueView m tr s := by
  have hevents := events_off hs off false
  refine queueView_eq hevents.1 hevents.2 (messages_off hu hs off) ?_
  intro q
  by_cases hq : act.moves = some q
  · exact inv.heldBack_move hs hq off
  · exact inv.heldBack_other hs hq

/-- A deletion thread that does not flush leaves the mailbox as a queue alone. -/
lemma FifoInvariant.queueView_kthread (hc : Consistent hash32 s) (hs : Stepped hash32 s act s')
    {k : ℕ} (running : s.running act = some (.kthread k,m,cs))
    (unflushed : ∀ xs, s.outcome act ≠ some (m,.flushed xs)) :
    queueView m (tr ++ [(s,act)]) s' = queueView m tr s := by
  obtain ⟨m',pr,deletion,moves,locked,mailboxes⟩ := hs.kthread_section running
  have hdestroys : cs.Destroys := hc.destroys k _ deletion
  have hadding : cs.adding = none := by
    cases cs with
    | addMessage | addWaiting => exact False.elim hdestroys
    | _ => rfl
  have hnotTaken : ∀ e, pr ≠ .returned (.message e) := by
    rintro e rfl
    obtain rfl := locked.2.free_of_returned hdestroys
    have hresult := congrArg Prod.snd locked.result
    cases hresult
  have hqueue : (s'.mailboxes m).messages = (s.mailboxes m).messages := by
    rw [mailboxes,setMailbox_self]
    apply locked.2.messages_eq (fun _ => hadding) hnotTaken
    rintro xs rfl
    exact unflushed xs (outcome_eq running locked)
  refine queueView_eq ?_ ?_ hqueue ?_
  · refine adds_eq_none running locked (.inr (.inr fun x hx => ?_))
    rw [hadding] at hx
    cases hx
  · exact delivers_eq_none running locked (.inr hnotTaken)
  · intro q
    refine inv.heldBack_other hs ?_
    rw [moves]
    exact Option.some_ne_none q ∘ Eq.symm

lemma FifoInvariant.heldBack_others (hs : Stepped hash32 s act s') {p q : Pid}
    (moves : act.moves = some p) (hq : q ≠ p) :
    (s'.pc q).heldBack m s'.messages = (s.pc q).heldBack m s.messages := by
  apply inv.heldBack_other hs
  rw [moves]
  exact fun he => hq (Option.some.inj he).symm

/-- A section of a task that adds and takes nothing leaves the mailbox as a queue alone. -/
lemma FifoInvariant.queueView_quiet (hs : Stepped hash32 s act s') {p : Pid} {k : Cont}
    {pr : Progress MessagePtr} (running : s.running act = some (.task p,m,cs))
    (ts : TaskSection s act s' p m cs k pr)
    (notAdded : pr = .returned (.code .ok) → cs.adding = none)
    (notTaken : ∀ e, pr ≠ .returned (.message e))
    (unflushed : ∀ xs, s.outcome act ≠ some (m,.flushed xs))
    (held : (s'.pc p).heldBack m s.messages = (s.pc p).heldBack m s.messages) :
    queueView m (tr ++ [(s,act)]) s' = queueView m tr s := by
  have hqueue : (s'.mailboxes m).messages = (s.mailboxes m).messages := by
    apply ts.locked.2.messages_eq notAdded notTaken
    rintro xs rfl
    exact unflushed xs (outcome_eq running ts.locked)
  have hadds : s.adds m false act = none := by
    rw [Option.eq_none_iff_forall_ne_some]
    intro x hx
    obtain ⟨-,hpr,hadding⟩ := (adds_eq_some running ts.locked).mp hx
    rw [notAdded hpr] at hadding
    cases hadding
  refine queueView_eq hadds (delivers_eq_none running ts.locked (.inr notTaken)) hqueue fun q => ?_
  by_cases hq : q = p
  · rw [hq,ts.messages]
    exact held
  · exact inv.heldBack_others hs ts.moves hq

/-- A task that stays inside its function leaves the mailbox as a queue alone. -/
lemma FifoInvariant.queueView_stays (hs : Stepped hash32 s act s') {p : Pid} {k : Cont}
    {cs' : CallState MessagePtr} {pr : Progress MessagePtr}
    (running : s.running act = some (.task p,m,cs)) (ts : TaskSection s act s' p m cs k pr)
    (fits : k.Fits cs) (stays : pr.callState = some cs') (next : s'.pc p = .onMailbox m cs' k)
    (unflushed : ∀ xs, s.outcome act ≠ some (m,.flushed xs)) :
    queueView m (tr ++ [(s,act)]) s' = queueView m tr s := by
  have hnot : ∀ r, pr ≠ .returned r := by
    rintro r rfl
    cases stays
  refine inv.queueView_quiet hs running ts (fun he => absurd he (hnot _)) (fun e => hnot _)
    unflushed ?_
  rw [ts.pc,next]
  cases k with
  | putBack =>
    obtain ⟨x,hx⟩ := fits
    simp only [Pc.heldBack,if_true,hx,ts.locked.2.stays_adding hx stays]
  | _ => rfl

lemma FifoInvariant.held_update (hs : Stepped hash32 s act s') {p : Pid}
    (moves : act.moves = some p) {v : Option MessagePtr}
    (held : (s'.pc p).heldBack m s'.messages = v) (tr' : List (System × Action)) :
    (queueView m tr' s').held = Function.update (queueView m tr s).held p v := by
  funext q
  by_cases hq : q = p
  · rw [hq,Function.update_self]
    exact held
  · rw [Function.update_of_ne hq]
    exact inv.heldBack_others hs moves hq

/-- A send comes back from its add: the message is accepted, or nothing happens. -/
lemma FifoInvariant.queueView_added {mayPutBack : PutBack.State Pid MessagePtr → MessagePtr → Prop}
    (hs : Stepped hash32 s act s') {p : Pid} {r : Ret MessagePtr}
    (running : s.running act = some (.task p,m,cs))
    (ts : TaskSection s act s' p m cs .added (.returned r)) (adding : cs.adding = some (x,false))
    (next : s'.pc p = Cont.resume m r .added)
    (unflushed : ∀ xs, s.outcome act ≠ some (m,.flushed xs)) :
    queueView m (tr ++ [(s,act)]) s' = queueView m tr s ∨
      PutBack.Step mayPutBack (queueView m tr s) (queueView m (tr ++ [(s,act)]) s') := by
  have hbefore : (s.pc p).heldBack m s.messages = none := by rw [ts.pc]; rfl
  have hafter : (s'.pc p).heldBack m s.messages = none := by rw [next]; rfl
  rcases ts.locked.2.added adding with ⟨rfl,hqueue⟩ | ⟨c,hc,rfl,-⟩
  · right
    have hadds : s.adds m false act = some x :=
      (adds_eq_some running ts.locked).mpr ⟨rfl,rfl,adding⟩
    have hdelivers : s.delivers m act = none :=
      delivers_eq_none running ts.locked (.inr fun e he => by cases he)
    have hpending : (s.pc p).pending m = some x := by simp [ts.pc,Pc.pending,adding]
    have hview : queueView m (tr ++ [(s,act)]) s' = { queueView m tr s with
        accepted := (queueView m tr s).accepted ++ [x]
        queue := (queueView m tr s).queue ++ [x] } := by
      ext1
      case accepted => exact accepted_snoc.trans (by rw [hadds]; rfl)
      case delivered => exact delivered_kept hdelivers
      case queue => exact hqueue
      case held =>
        rw [inv.held_update hs ts.moves (ts.messages ▸ hafter),← hbefore]
        exact Function.update_eq_self p _
    rw [hview]
    exact .accept (inv.pending p x hpending).1
  · left
    refine inv.queueView_quiet hs running ts (fun he => ?_) (fun e he => ?_) unflushed
      (hafter.trans hbefore.symm)
    · cases he
      exact absurd rfl hc
    · cases he

/-- A receive comes back from putting its message back: the message is at the front again, or
it is lost. -/
lemma FifoInvariant.queueView_putBack (hs : Stepped hash32 s act s') {p : Pid}
    {r : Ret MessagePtr} (running : s.running act = some (.task p,m,cs))
    (ts : TaskSection s act s' p m cs .putBack (.returned r)) (adding : cs.adding = some (x,true))
    (next : s'.pc p = Cont.resume m r .putBack) (guard : putsBackInOrder m tr s act = true) :
    PutBack.Step PutBack.State.InOrder (queueView m tr s) (queueView m (tr ++ [(s,act)]) s') := by
  have hbefore : (s.pc p).heldBack m s.messages = some x := by
    simp [ts.pc,Pc.heldBack,adding]
  have hafter : (s'.pc p).heldBack m s'.messages = none := by rw [next]; rfl
  have hadds : s.adds m false act = none := by
    refine adds_eq_none running ts.locked (.inr (.inr fun y hy => ?_))
    rw [adding] at hy
    cases hy
  have hnotTaken : ∀ e, r ≠ .message e := by
    rintro e rfl
    rcases ts.locked.2.added adding with ⟨hr,-⟩ | ⟨c,-,hr,-⟩ <;> cases hr
  have hdelivers : s.delivers m act = none :=
    delivers_eq_none running ts.locked (.inr fun e he => hnotTaken e (Progress.returned.inj he))
  have hheld := inv.held_update hs ts.moves hafter (tr ++ [(s,act)])
  have hview : ∀ q, (s'.mailboxes m).messages = q → queueView m (tr ++ [(s,act)]) s' =
      { queueView m tr s with
        queue := q
        held := Function.update (queueView m tr s).held p none } := by
    intro q hqueue
    ext1
    case accepted => exact accepted_kept hadds
    case delivered => exact delivered_kept hdelivers
    case queue => exact hqueue
    case held => exact hheld
  rcases ts.locked.2.added adding with ⟨rfl,hqueue⟩ | ⟨c,-,rfl,hqueue⟩
  · rw [hview _ hqueue]
    have hback : s.adds m true act = some x :=
      (adds_eq_some running ts.locked).mpr ⟨rfl,rfl,adding⟩
    rw [putsBackInOrder,hback] at guard
    have hinOrder := of_decide_eq_true guard
    exact .putBack hbefore hinOrder
  · rw [hview _ hqueue]
    exact .lose

/-- A receive takes the first message, which it will deliver or put back. -/
lemma FifoInvariant.queueView_taken {mayPutBack : PutBack.State Pid MessagePtr → MessagePtr → Prop}
    (hs : Stepped hash32 s act s') {p : Pid} {ptrs : RecievePtrs} {e : ListEntry MessagePtr}
    (running : s.running act = some (.task p,m,cs))
    (ts : TaskSection s act s' p m cs (.removed ptrs) (.returned (.message e)))
    (next : s'.pc p = .copyToUser m (.ofEntry m e) ptrs) :
    PutBack.Step mayPutBack (queueView m tr s) (queueView m (tr ++ [(s,act)]) s') := by
  obtain ⟨y,rest,hfront,rfl⟩ : ∃ y rest, (s.mailboxes m).messages = y :: rest ∧ e = .node y := by
    obtain ⟨rfl,hcount,-⟩ := ts.locked.2.takes
    exact Mailbox.exists_front inv.exact hcount
  have hqueue : (queueView m (tr ++ [(s,act)]) s').queue = rest := by
    obtain ⟨-,-,htail⟩ := ts.locked.2.takes
    rw [hfront] at htail
    exact htail
  have hadds : s.adds m false act = none :=
    adds_eq_none running ts.locked (.inr (.inl fun he => by cases he))
  have haccepted : (queueView m (tr ++ [(s,act)]) s').accepted = (queueView m tr s).accepted :=
    accepted_kept hadds
  have hy : y ∈ (s.mailboxes m).messages := by
    rw [hfront]
    exact List.mem_cons_self
  have hknown : s.messages.Known y :=
    inv.known y (inv.ordered.sublist.subset (List.mem_append_right _ hy))
  obtain ⟨o,rfl⟩ : ∃ o, act = .run p o := by
    have hactor := (running_eq_some_iff.mp running).1
    cases act with
    | run q o => cases hactor; exact ⟨o,rfl⟩
    | _ => cases hactor
  have hdelivers : s.delivers m (.run p o) =
      if ptrs.writable (s.messages.read .clear y) = true then some y else none := by
    have hread := hknown.read_eq (.refl _) .clear o
    simp [delivers,outcome_eq running ts.locked,ts.pc,Pc.canDeliver,hread]
  cases hw : ptrs.writable (s.messages.read .clear y) with
  | true =>
    have hafter : (s'.pc p).heldBack m s'.messages = none := by
      rw [next,ts.messages]
      simp [Pc.heldBack,MessagePtr.ofEntry,hw]
    have hbefore : (s.pc p).heldBack m s.messages = none := by rw [ts.pc]; rfl
    have hview : queueView m (tr ++ [(s,.run p o)]) s' = { queueView m tr s with
        delivered := (queueView m tr s).delivered ++ [y]
        queue := rest } := by
      ext1
      · exact haccepted
      · refine delivered_snoc.trans ?_
        rw [hdelivers,if_pos hw]
        rfl
      · exact hqueue
      · rw [inv.held_update hs ts.moves hafter,← hbefore]
        exact Function.update_eq_self p _
    rw [hview]
    exact .deliver hfront
  | false =>
    have hafter : (s'.pc p).heldBack m s'.messages = some y := by
      rw [next,ts.messages]
      simp [Pc.heldBack,MessagePtr.ofEntry,hw]
    have hview : queueView m (tr ++ [(s,.run p o)]) s' = { queueView m tr s with
        queue := rest
        held := Function.update (queueView m tr s).held p (some y) } := by
      ext1
      · exact haccepted
      · refine delivered_snoc.trans ?_
        rw [hdelivers,if_neg (by simp [hw])]
        exact List.append_nil _
      · exact hqueue
      · exact inv.held_update hs ts.moves hafter _
    rw [hview]
    exact .take hfront

/-- A section that cannot add or take a message: a claim, an unclaim or a stop. -/
lemma FifoInvariant.queueView_once (hs : Stepped hash32 s act s') {p : Pid} {k : Cont}
    {r : Ret MessagePtr} (running : s.running act = some (.task p,m,cs))
    (ts : TaskSection s act s' p m cs k (.returned r)) (next : s'.pc p = k.resume m r)
    (once : cs = .claim ∨ cs = .unclaim ∨ ∃ status, cs = .stop status)
    (unflushed : ∀ xs, s.outcome act ≠ some (m,.flushed xs))
    (before : (s.pc p).heldBack m s.messages = none) :
    queueView m (tr ++ [(s,act)]) s' = queueView m tr s := by
  have hadding : cs.adding = none := by rcases once with rfl | rfl | ⟨status,rfl⟩ <;> rfl
  have hnotTaken : ∀ e, r ≠ .message e := by
    rintro e rfl
    have hresult := congrArg Prod.snd ts.locked.result
    rcases once with rfl | rfl | ⟨status,rfl⟩ <;> cases hresult
  refine inv.queueView_quiet hs running ts (fun _ => hadding)
    (fun e he => hnotTaken e (Progress.returned.inj he)) unflushed ?_
  rw [next,before]
  exact heldBack_resume (.inr hnotTaken)

/-- Seen as a queue with put-backs, the mailbox takes a step of that queue or none. -/
theorem FifoInvariant.queueView_stepped (hc : Consistent hash32 s) (hu : Uncreated s)
    (hs : Stepped hash32 s act s') (unflushed : ∀ xs, s.outcome act ≠ some (m,.flushed xs))
    (guard : putsBackInOrder m tr s act = true) :
    queueView m (tr ++ [(s,act)]) s' = queueView m tr s ∨
      PutBack.Step PutBack.State.InOrder (queueView m tr s) (queueView m (tr ++ [(s,act)]) s') := by
  by_cases hoff : ∀ a cs, s.running act ≠ some (a,m,cs)
  · exact .inl (inv.queueView_off hu hs hoff)
  · push Not at hoff
    obtain ⟨a,cs,running⟩ := hoff
    cases a with
    | kthread k => exact .inl (inv.queueView_kthread hc hs running unflushed)
    | task p =>
      obtain ⟨k,pr,ts⟩ := hs.task_section running
      have hfits := hc.fits p
      rw [ts.pc] at hfits
      rcases ts.next with ⟨cs',hstays,hnext⟩ | ⟨r,rfl,hnext⟩
      · exact .inl (inv.queueView_stays hs running ts hfits hstays hnext unflushed)
      · cases k with
        | added =>
          obtain ⟨x,hx⟩ := hfits
          exact inv.queueView_added hs running ts hx hnext unflushed
        | putBack =>
          obtain ⟨x,hx⟩ := hfits
          exact .inr (inv.queueView_putBack hs running ts hx hnext guard)
        | removed ptrs =>
          cases r with
          | message e => exact .inr (inv.queueView_taken hs running ts hnext)
          | code c =>
            left
            have hadding : cs.adding = none := by
              rcases hfits with ⟨block,rfl⟩ | rfl <;> rfl
            refine inv.queueView_quiet hs running ts (fun _ => hadding)
              (fun e he => by cases he) unflushed ?_
            rw [hnext,ts.pc]
            rfl
        | claimed fresh c =>
          exact .inl (inv.queueView_once hs running ts hnext (.inl hfits) unflushed (by rw [ts.pc]; rfl))
        | refused | unclaimed | delivered =>
          exact .inl (inv.queueView_once hs running ts hnext (.inr (.inl hfits)) unflushed
            (by rw [ts.pc]; rfl))
        | stopped | hook =>
          exact .inl (inv.queueView_once hs running ts hnext (.inr (.inr ⟨_,hfits⟩)) unflushed
            (by rw [ts.pc]; rfl))

end System
end ProcessMessagePassing
