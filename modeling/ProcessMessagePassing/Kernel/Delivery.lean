import ProcessMessagePassing.Kernel.Fifo
import ProcessMessagePassing.Kernel.Memory
import ProcessMessagePassing.Kernel.Orphan

/-! What the receivers get. Every message that a receive delivers was made by one send and put on the
list by it, and it is delivered once and as it was sent. -/
namespace ProcessMessagePassing
open Concurrency HashTable

/-- The call has neither made nor copied a message yet. -/
def Pc.beforeMessage : Pc → Bool
  | .validate _ _ => true
  | .lookup _ _ => true
  | .onMailbox _ _ (.claimed _ _) => true
  | .onMailbox _ _ (.removed _) => true
  | .checkExiting _ _ => true
  | .createMessage _ _ _ => true
  | .copyToUser _ _ _ => true
  | _ => false

/-- The message that a receive has copied and not yet freed. -/
def Pc.delivering : Pc → Option MessagePtr
  | .onMailbox _ _ (.delivered x) => some x
  | .destroyMessage x => some x
  | _ => none

lemma beforeMessage_resume {m n : ℕ} {r : Ret MessagePtr} {cs : CallState MessagePtr} {k : Cont}
    (h : (Pc.onMailbox n cs k).beforeMessage = false) : (k.resume m r).beforeMessage = false := by
  cases k with
  | claimed | removed => cases h
  | _ => rfl

lemma beforeMessage_exits {c : Pc} (h : c.exits = true) : c.beforeMessage = false := by
  cases c with
  | onMailbox | validate | lookup | checkExiting | createMessage | copyToUser => cases h
  | _ => rfl

lemma delivering_begin (m : ℕ) (c : Syscall) : (c.begin m).delivering = none := by cases c <;> rfl

lemma delivering_resume {m n : ℕ} {r : Ret MessagePtr} {cs : CallState MessagePtr} {k : Cont} :
    (k.resume m r).delivering = (Pc.onMailbox n cs k).delivering := by
  cases k with
  | claimed fresh c =>
    cases fresh with
    | true => exact delivering_begin m c
    | false => rfl
  | removed ptrs => cases r <;> rfl
  | added | refused | putBack | stopped | unclaimed | delivered | hook => rfl

lemma delivering_exits {c : Pc} (h : c.exits = true) : c.delivering = none := by
  cases c with
  | onMailbox | destroyMessage => cases h
  | _ => rfl

namespace System
variable {hash32 : Pid → ℕ} {sig : Actor → Bool} {s s' : System} {act : Action}
  {tr : List (System × Action)} {m n i j : ℕ} {p g : Pid} {x : MessagePtr} {w : List UserWrite}

/-- The send entered at `j` to process `g` has made the message object `n` from the buffer, and `w`
is what a receiver is to get: the sender, the length, and that many bytes of the buffer. -/
def Made (tr : List (System × Action)) (j : ℕ) (g : Pid) (n : ℕ) (w : List UserWrite) : Prop :=
  ∃ before t q o after m len block h, tr = before ++ (t,.run q o) :: after ∧
    callOf q before = some (j,.sendMessage g len block) ∧ t.pc q = .createMessage m len block ∧
    t.messages.create (t.processes.tgid q) len o = (h,.ok n) ∧ 0 ≤ len ∧ len ≤ maxMsgSize ∧
    len.toNat ≤ o.buffer.length ∧
    w = [.sender (t.processes.tgid q),.len len,.msg (o.buffer.take len.toNat)]

/-- The send entered at `j` to process `g` has put the message on the list. -/
def Queued (m : ℕ) (tr : List (System × Action)) (j : ℕ) (g : Pid) (x : MessagePtr) : Prop :=
  ∃ before t act after q len block, tr = before ++ (t,act) :: after ∧ act.moves = some q ∧
    callOf q before = some (j,.sendMessage g len block) ∧ t.adds m false act = some x

/-- The call entered at `j` is a send to process `g` that has put a message on the list, of which a
receiver is to get `w`. -/
def Sent (m : ℕ) (tr : List (System × Action)) (j : ℕ) (g : Pid) (w : List UserWrite) : Prop :=
  ∃ n, Made tr j g n w ∧ Queued m tr j g (.object n)

/-- The receive entered at `i` by a task of process `g` copies a message that it has taken from the
mailbox. -/
def Takes (m : ℕ) (tr : List (System × Action)) (i : ℕ) (p g : Pid) (x : MessagePtr) : Prop :=
  ∃ before t o after ptrs block, tr = before ++ (t,.run p o) :: after ∧
    callOf p before = some (i,.recieveMessage ptrs block) ∧ t.pc p = .copyToUser m x ptrs ∧
    t.processes.tgid p = g

/-- The call entered at `i` returns zero and has written `w`. -/
def ReturnsZero (hash32 : Pid → ℕ) (tr : List (System × Action)) (i : ℕ) (p : Pid)
    (w : List UserWrite) : Prop :=
  ∃ before t o after u c, tr = before ++ (t,.run p o) :: after ∧ callOf p before = some (i,c) ∧
    (t.pc p).inCall = true ∧ step hash32 t (.run p o) = some u ∧ u.pc p = .user (some .ok) ∧
    u.written p = w

/-- The call entered at `i` is a receive of a task of process `g` from the mailbox that returns zero
and has written `w`. -/
def Received (hash32 : Pid → ℕ) (m : ℕ) (tr : List (System × Action)) (i : ℕ) (g : Pid)
    (w : List UserWrite) : Prop :=
  ∃ p x, Takes m tr i p g x ∧ ReturnsZero hash32 tr i p w

/-- The message was made, and put on the list, by a send to process `g`. -/
def Origin (m : ℕ) (tr : List (System × Action)) (g : Pid) (x : MessagePtr) : Prop :=
  ∃ j n w, x = .object n ∧ Made tr j g n w ∧ Queued m tr j g x

lemma Made.mono (h : Made tr j g n w) (tr' : List (System × Action)) : Made (tr ++ tr') j g n w := by
  obtain ⟨before,t,q,o,after,m,len,block,h,rfl,hrest⟩ := h
  exact ⟨before,t,q,o,after ++ tr',m,len,block,h,by simp,hrest⟩

lemma Queued.mono (h : Queued m tr j g x) (tr' : List (System × Action)) :
    Queued m (tr ++ tr') j g x := by
  obtain ⟨before,t,act,after,q,len,block,rfl,hrest⟩ := h
  exact ⟨before,t,act,after ++ tr',q,len,block,by simp,hrest⟩

lemma Origin.mono (h : Origin m tr g x) (tr' : List (System × Action)) :
    Origin m (tr ++ tr') g x := by
  obtain ⟨j,n,w,hx,hmade,hqueued⟩ := h
  exact ⟨j,n,w,hx,hmade.mono tr',hqueued.mono tr'⟩

theorem keepsLeaving_beforeMessage : KeepsLeaving hash32 Pc.beforeMessage := by
  intro s act s' p h same now
  cases h.taskStep p with
  | rests moves pc =>
    rw [pc]
    exact now
  | arrives pc next | leaves pc next | invalid action pc next | outOfMemory action pc next
  | refused action pc exiting next | messageCreated action pc made next
  | messageFailed action pc failed next | countFault action pc fault next
  | copied action pc writable next | copyFault action pc fault next
  | destroyed action pc messages next | removalFound action pc found next =>
    rw [next]
    rfl
  | enters action pc next =>
    subst act
    simp [Action.enters] at same
  | ends pc next exits =>
    rw [next]
    exact beforeMessage_exits exits
  | exiting pc next old new =>
    rw [next]
    exact beforeMessage_exits new
  | valid action pc valid next | found action pc found next
  | created action pc missing memory owner next | granted action pc alive next =>
    rw [pc] at now
    cases now
  | @stays o m cs k pr cs' action pc locked stays next =>
    rw [pc] at now
    rw [next]
    cases k <;> exact now
  | returned action pc locked next =>
    rw [pc] at now
    rw [next]
    exact beforeMessage_resume now
  | countCopied action pc writable next =>
    rw [next]
    split <;> rfl

/-- The step of a task that makes a message, whatever comes of it. -/
lemma createMessage_stepped {o : Oracle} {len : ℤ} {block : Bool} (pc : s.pc p = .createMessage m len block)
    (h : step hash32 s (.run p o) = some s') :
    s'.messages = (s.messages.create (s.processes.tgid p) len o).1 ∧
      (s'.pc p).beforeMessage = false := by
  have hs' : s.createMessage p m len block o = s' := by
    simpa [step,runTask,pc] using h
  subst s'
  refine ⟨messages_createMessage _ _ _ _ _ _,?_⟩
  unfold createMessage
  dsimp only
  cases (s.messages.create (s.processes.tgid p) len o).2 <;> rw [setPc_self] <;> rfl

lemma copyToUser_stepped {o : Oracle} {ptrs : RecievePtrs} (pc : s.pc p = .copyToUser m x ptrs)
    (h : step hash32 s (.run p o) = some s') : (s'.pc p).beforeMessage = false := by
  have hs' : s.copyToUser p m x ptrs o = s' := by
    simpa [step,runTask,pc] using h
  subst s'
  unfold copyToUser
  dsimp only
  split <;> rw [setPc_self] <;> rfl

/-- A send makes one message. -/
lemma Made.once (h : Run (step hash32) (initial sig) tr s) {g' : Pid} {n' : ℕ} {w' : List UserWrite}
    (made : Made tr j g n w) (made' : Made tr j g' n' w') : n = n' := by
  obtain ⟨b,t,q,o,a,k,len,block,c,htr,hcall,hpc,hcreate,-⟩ := made
  obtain ⟨b',t',q',o',a',k',len',block',c',htr',hcall',hpc',hcreate',-⟩ := made'
  obtain ⟨-,rfl,hact,rfl⟩ := keepsLeaving_beforeMessage.once h htr htr' hcall hcall'
    (by rw [hpc]; rfl) (by rw [hpc']; rfl) (fun u hu => (createMessage_stepped hpc hu).2)
    fun u hu => (createMessage_stepped hpc' hu).2
  rw [(MessageCache.create_ok hcreate).1,(MessageCache.create_ok hcreate').1]

/-- The object of a message has what the send gave it, for good. -/
lemma Made.copies (h : Run (step hash32) (initial sig) tr s) (made : Made tr j g n w)
    {ptrs : RecievePtrs} (writable : ptrs.writable (s.messages.object n) = true) :
    copyMessage ptrs (s.messages.object n) = w := by
  obtain ⟨b,t,q,o,a,k,len,block,c,rfl,hcall,hpc,hcreate,hlow,hhigh,hbuffer,rfl⟩ := made
  obtain ⟨u,-,htaken,hafter⟩ := h.split_at
  obtain ⟨-,-,-,rfl,hc⟩ := MessageCache.create_eq_ok hcreate
  have hnew : u.messages = c := by
    rw [(createMessage_stepped hpc htaken).1,hcreate]
  have hobject : s.messages.object t.messages.created =
      ⟨t.processes.tgid q,len,o.buffer.take len.toNat ++ o.stale.drop len.toNat⟩ := by
    rw [(extends_of_run hafter).object _ (by rw [hnew,hc]; exact Nat.lt_succ_self _),hnew,hc]
    exact Function.update_self _ _ _
  have hvisible := MessageCache.visible_create (t.processes.tgid q) o hlow hhigh hbuffer
  rw [hobject] at writable ⊢
  rw [← copyMessage_visible,hvisible]
  rw [← writable_visible,hvisible] at writable
  have hsize : Message.copySize ⟨t.processes.tgid q,len,o.buffer.take len.toNat⟩ = len.toNat := by
    unfold maxMsgSize at hhigh
    unfold Message.copySize
    dsimp only
    omega
  rw [copyMessage_of_writable writable,hsize,List.take_take,Nat.min_self]

/-- The receive entered at `i` has copied the message, and has written it all. -/
def Copied (tr : List (System × Action)) (i : ℕ) (p : Pid) (x : MessagePtr) (w : List UserWrite) :
    Prop :=
  ∃ before t o after ptrs block m, tr = before ++ (t,.run p o) :: after ∧
    callOf p before = some (i,.recieveMessage ptrs block) ∧ t.pc p = .copyToUser m x ptrs ∧
    ptrs.writable (t.messages.read o x) = true ∧ w = copyMessage ptrs (t.messages.read o x)

lemma Copied.mono (h : Copied tr i p x w) (y : System × Action) : Copied (tr ++ [y]) i p x w := by
  obtain ⟨before,t,o,after,ptrs,block,m,rfl,hrest⟩ := h
  exact ⟨before,t,o,after ++ [y],ptrs,block,m,by simp,hrest⟩

/-- What is true of every receive on its way: it has written nothing before it copies, and it does
not come back with zero unless it has copied a message. -/
structure ReceiveInvariant (tr : List (System × Action)) (s : System) : Prop where
  unwritten : ∀ p, (s.pc p).beforeMessage = true → s.written p = []
  code : ∀ p i ptrs block m cs code, callOf p tr = some (i,.recieveMessage ptrs block) →
    s.pc p = .onMailbox m cs (.unclaimed code) → code ≠ .ok
  delivering : ∀ p x, (s.pc p).delivering = some x → ∃ i ptrs block,
    callOf p tr = some (i,.recieveMessage ptrs block) ∧ Copied tr i p x (s.written p)

lemma unwritten_stepped (inv : ReceiveInvariant tr s) (h : Stepped hash32 s act s') (p : Pid)
    (before : (s'.pc p).beforeMessage = true) : s'.written p = [] := by
  cases h.taskStep p with
  | rests moves pc written =>
    rw [written]
    rw [pc] at before
    exact inv.unwritten p before
  | enters action pc next written => exact written
  | arrives pc next | leaves pc next | invalid action pc next | outOfMemory action pc next
  | refused action pc exiting next | messageCreated action pc made next
  | messageFailed action pc failed next | countFault action pc fault next
  | copied action pc writable next | copyFault action pc fault next
  | destroyed action pc messages next | removalFound action pc found next =>
    rw [next] at before
    cases before
  | ends pc next exits =>
    rw [next,beforeMessage_exits exits] at before
    cases before
  | exiting pc next old new =>
    rw [next,beforeMessage_exits new] at before
    cases before
  | valid action pc valid next written | found action pc found next written
  | created action pc missing memory owner next written | granted action pc alive next written =>
    rw [written]
    apply inv.unwritten p
    rw [pc]
    rfl
  | @stays o m cs k pr cs' action pc locked stays next written =>
    rw [written]
    apply inv.unwritten p
    rw [next] at before
    rw [pc]
    cases k <;> exact before
  | @returned o m cs k r action pc locked next written =>
    rw [written]
    apply inv.unwritten p
    rw [next] at before
    rw [pc]
    by_contra hnot
    rw [beforeMessage_resume (Bool.not_eq_true _ ▸ hnot)] at before
    cases before
  | countCopied action pc writable next =>
    rw [next] at before
    split at before <;> cases before

/-- A task that comes out of a send or of `__manage_mailbox` is in no receive. -/
lemma serves_receive (calls : CallInvariant tr s) (inCall : (s.pc p).inCall = true)
    {ptrs : RecievePtrs} {block : Bool}
    (call : callOf p tr = some (i,.recieveMessage ptrs block)) :
    (s.pc p).Serves s.owner (s.key p (.recieveMessage ptrs block)) (.recieveMessage ptrs block) := by
  obtain ⟨i',c,hcall,hserves⟩ := calls.serves p inCall
  rw [call] at hcall
  cases hcall
  exact hserves

lemma code_stepped (inv : ReceiveInvariant tr s) (calls : CallInvariant tr s)
    (hc : Consistent hash32 s) (h : Stepped hash32 s act s') {ptrs : RecievePtrs} {block : Bool}
    {cs : CallState MessagePtr} {code : Code}
    (call : callOf p (tr ++ [(s,act)]) = some (i,.recieveMessage ptrs block))
    (hpc : s'.pc p = .onMailbox m cs (.unclaimed code)) : code ≠ .ok := by
  cases h.taskStep p with
  | rests moves pc =>
    rw [callOf_kept tr s (enters_of_rests moves)] at call
    exact inv.code p i ptrs block m cs code call (pc ▸ hpc)
  | arrives pc next | leaves pc next | enters action pc next | valid action pc valid next
  | invalid action pc next | found action pc found next
  | created action pc missing memory owner next | outOfMemory action pc next
  | refused action pc exiting next | messageCreated action pc made next
  | copied action pc writable next | copyFault action pc fault next
  | destroyed action pc messages next | removalFound action pc found next =>
    rw [next] at hpc
    cases hpc
  | ends pc next exits off | exiting pc next old new off =>
    rw [next] at hpc
    rw [hpc] at off
    cases off
  | granted action pc alive next =>
    rw [next] at hpc
    exact absurd hpc (begin_ne _ rfl)
  | messageFailed action pc failed next =>
    subst act
    rw [callOf_run] at call
    have hserves := serves_receive calls (by rw [pc]; rfl) call
    rw [pc] at hserves
    obtain ⟨-,dest,hne⟩ := hserves
    cases hne
  | countFault action pc fault next | countCopied action pc writable next =>
    subst act
    rw [callOf_run] at call
    have hserves := serves_receive calls (by rw [pc]; rfl) call
    rw [pc] at hserves
    obtain ⟨-,hne⟩ := hserves
    cases hne
  | stays action pc locked stays next =>
    subst act
    rw [callOf_run] at call
    rw [next] at hpc
    cases hpc
    exact inv.code p i ptrs block _ _ code call pc
  | @returned o k cs' k' r action pc locked next =>
    subst act
    rw [callOf_run] at call
    rw [next] at hpc
    have hfits := hc.fits p
    rw [pc] at hfits
    cases k' with
    | claimed fresh c =>
      cases fresh with
      | true => exact absurd hpc (begin_ne _ rfl)
      | false => cases hpc
    | removed ptrs' =>
      cases r with
      | message e => cases hpc
      | code c =>
        cases hpc
        exact locked.2.remove_error hfits
    | putBack =>
      cases hpc
      nofun
    | added =>
      have hserves := serves_receive calls (by rw [pc]; rfl) call
      rw [pc] at hserves
      obtain ⟨-,dest,len,block',hne,-⟩ := hserves
      cases hne
    | stopped =>
      have hserves := serves_receive calls (by rw [pc]; rfl) call
      rw [pc] at hserves
      obtain ⟨-,count,hne⟩ := hserves
      cases hne
    | refused | unclaimed | delivered | hook => cases hpc

lemma delivering_stepped (inv : ReceiveInvariant tr s) (calls : CallInvariant tr s)
    (h : Stepped hash32 s act s') (hx : (s'.pc p).delivering = some x) : ∃ i ptrs block,
      callOf p (tr ++ [(s,act)]) = some (i,.recieveMessage ptrs block) ∧
        Copied (tr ++ [(s,act)]) i p x (s'.written p) := by
  -- a task that had copied the message before
  have hold : act.enters p = none → s'.written p = s.written p →
      (s.pc p).delivering = some x → ∃ i ptrs block,
        callOf p (tr ++ [(s,act)]) = some (i,.recieveMessage ptrs block) ∧
          Copied (tr ++ [(s,act)]) i p x (s'.written p) := by
    intro hsame hwritten hdelivering
    obtain ⟨i,ptrs,block,hcall,hcopied⟩ := inv.delivering p x hdelivering
    refine ⟨i,ptrs,block,(callOf_kept tr s hsame).trans hcall,?_⟩
    rw [hwritten]
    exact hcopied.mono _
  cases h.taskStep p with
  | rests moves pc written => exact hold (enters_of_rests moves) written (pc ▸ hx)
  | arrives pc next | leaves pc next | enters action pc next | valid action pc valid next
  | invalid action pc next | found action pc found next
  | created action pc missing memory owner next | outOfMemory action pc next
  | refused action pc exiting next | messageCreated action pc made next
  | messageFailed action pc failed next | countFault action pc fault next
  | copyFault action pc fault next | destroyed action pc messages next
  | removalFound action pc found next =>
    rw [next] at hx
    cases hx
  | ends pc next exits =>
    rw [next,delivering_exits exits] at hx
    cases hx
  | exiting pc next old new =>
    rw [next,delivering_exits new] at hx
    cases hx
  | granted action pc alive next =>
    rw [next,delivering_begin] at hx
    cases hx
  | countCopied action pc writable next =>
    rw [next] at hx
    split at hx <;> cases hx
  | @stays o k cs k' pr cs' action pc locked stays next written =>
    subst act
    refine hold rfl written ?_
    rw [next] at hx
    rw [pc]
    cases k' <;> exact hx
  | returned action pc locked next written =>
    subst act
    refine hold rfl written ?_
    rw [next] at hx
    rw [pc]
    exact delivering_resume.symm.trans hx
  | @copied o k y ptrs action pc writable next written =>
    subst act
    rw [next] at hx
    cases hx
    obtain ⟨i,c,hcall,hserves⟩ := calls.serves p (by rw [pc]; rfl)
    rw [pc] at hserves
    obtain ⟨-,block,rfl⟩ := hserves
    refine ⟨i,ptrs,block,(callOf_run tr s o p).trans hcall,tr,s,o,[],ptrs,block,k,rfl,hcall,pc,
      writable,?_⟩
    have hblank : s.written p = [] := inv.unwritten p (by rw [pc]; rfl)
    rw [written,hblank,List.nil_append]

theorem receiveInvariant_of_run (h : Run (step hash32) (initial sig) tr s) :
    ReceiveInvariant tr s := by
  induction h with
  | refl =>
    constructor
    · intro p before
      rfl
    · intro p i ptrs block m cs code call
      cases call
    · intro p x hx
      cases hx
  | @snoc tr s act s' prior taken ih =>
    have hs := step_stepped taken
    have hcalls := callInvariant_of_run prior
    constructor
    · exact unwritten_stepped ih hs
    · intro p i ptrs block m cs code call hpc
      exact code_stepped ih hcalls (consistent_of_run prior) hs call hpc
    · intro p x hx
      exact delivering_stepped ih hcalls hs hx

/-- A receive that returns zero frees the message that it has copied. -/
lemma destroys_of_returnsZero (inv : ReceiveInvariant tr s) (h : Stepped hash32 s act s')
    {o : Oracle} (action : act = .run p o) (busy : (s.pc p).inCall = true)
    (zero : s'.pc p = .user (some .ok)) {ptrs : RecievePtrs} {block : Bool}
    (call : callOf p tr = some (i,.recieveMessage ptrs block)) :
    ∃ x, s.pc p = .destroyMessage x ∧ s'.written p = s.written p := by
  cases h.taskStep p with
  | destroyed action' pc messages next written => exact ⟨_,pc,written⟩
  | rests moves =>
    subst act
    exact absurd rfl moves
  | arrives pc next | leaves pc next =>
    rw [pc] at busy
    cases busy
  | enters action' pc next | valid action' pc valid next | invalid action' pc next
  | found action' pc found next | created action' pc missing memory owner next
  | outOfMemory action' pc next | stays action' pc locked stays next
  | refused action' pc exiting next | messageCreated action' pc made next
  | messageFailed action' pc failed next | countFault action' pc fault next
  | copied action' pc writable next | copyFault action' pc fault next
  | removalFound action' pc found next =>
    rw [next] at zero
    cases zero
  | ends pc next exits | exiting pc next old exits =>
    rw [next] at zero
    rw [zero] at exits
    cases exits
  | granted action' pc alive next =>
    rw [next] at zero
    exact absurd zero (begin_ne _ rfl)
  | countCopied action' pc writable next =>
    rw [next] at zero
    split at zero <;> cases zero
  | @returned o' k cs k' r action' pc locked next =>
    rw [next] at zero
    cases k' with
    | unclaimed code =>
      cases zero
      exact absurd rfl (inv.code p i ptrs block k cs .ok call pc)
    | claimed fresh c =>
      cases fresh with
      | true => exact absurd zero (begin_ne _ rfl)
      | false => cases zero
    | removed ptrs' => cases r <;> cases zero
    | added | refused | putBack | stopped | delivered | hook => cases zero

/-- What is true of every message that is on its way through a mailbox that is not removed: the
calls that send to the mailbox have made it. -/
structure DeliveryInvariant (m : ℕ) (tr : List (System × Action)) (s : System) : Prop where
  exact : (s.mailboxes m).Exact
  pending : ∀ p x, (s.pc p).pending m = some x → ∃ j n w len block, x = .object n ∧
    callOf p tr = some (j,.sendMessage (s.owner m) len block) ∧ Made tr j (s.owner m) n w
  queued : ∀ x, x ∈ (s.mailboxes m).messages → Origin m tr (s.owner m) x
  taken : ∀ p x ptrs, s.pc p = .copyToUser m x ptrs → Origin m tr (s.owner m) x
  returning : ∀ p cs x head, s.pc p = .onMailbox m cs .putBack → cs.adding = some (x,head) →
    Origin m tr (s.owner m) x

theorem deliveryInvariant_initial : DeliveryInvariant m [] (initial sig) where
  exact := Mailbox.exact_create 0
  pending p x h := by cases h
  queued x h := by cases h
  taken p x ptrs h := by cases h
  returning p cs x head h := by cases h

lemma mailbox_of_pending {c : Pc} (h : c.pending m = some x) : c.mailbox = some m := by
  cases c with
  | onMailbox n cs k =>
    cases k with
    | added =>
      simp only [Pc.pending] at h
      split_ifs at h with hn
      exact congrArg some hn
    | _ => cases h
  | _ => cases h

/-- A task enters a call where it is in none. -/
lemma Stepped.enters_none (h : Stepped hash32 s act s') (busy : (s.pc p).inCall = true) :
    act.enters p = none := by
  cases h with
  | @enter q c last user =>
    refine if_neg ?_
    rintro rfl
    rw [user] at busy
    cases busy
  | _ => rfl

lemma Origin.stepped (h : Origin m tr (s.owner m) x) (hs : Stepped hash32 s act s')
    (old : m < s.mailboxesCreated) : Origin m (tr ++ [(s,act)]) (s'.owner m) x := by
  rw [owner_stepped hs old]
  exact h.mono _

variable (inv : DeliveryInvariant m tr s)
include inv

lemma DeliveryInvariant.pending_stepped (calls : CallInvariant tr s) (hc : Consistent hash32 s)
    (bounds : InBounds s) (h : Stepped hash32 s act s') (p : Pid) (x : MessagePtr)
    (hx : (s'.pc p).pending m = some x) : ∃ j n w len block, x = .object n ∧
      callOf p (tr ++ [(s,act)]) = some (j,.sendMessage (s'.owner m) len block) ∧
      Made (tr ++ [(s,act)]) j (s'.owner m) n w := by
  rcases System.pending_stepped hc h hx with hold | ⟨n,o,len,block,rfl,rfl,hpc,hmade⟩
  · obtain ⟨j,n,w,len,block,rfl,hcall,hmade⟩ := inv.pending p x hold
    have hbusy : (s.pc p).inCall = true := by
      generalize s.pc p = c at hold
      cases c with
      | onMailbox k cs cont =>
        cases cont with
        | added => rfl
        | _ => cases hold
      | _ => cases hold
    rw [owner_stepped h (bounds.tasks p m (mailbox_of_pending hold))]
    refine ⟨j,n,w,len,block,rfl,?_,hmade.mono _⟩
    rw [callOf_kept tr s (h.enters_none hbusy)]
    exact hcall
  · obtain ⟨j,c,hcall,hserves⟩ := calls.serves p (by rw [hpc]; rfl)
    rw [hpc] at hserves
    obtain ⟨howner,dest,rfl⟩ := hserves
    have hdest : s.owner m = dest := howner
    obtain ⟨hlow,hhigh,hbuffer,-,-⟩ := MessageCache.create_eq_ok hmade
    rw [owner_stepped h (bounds.tasks p m (by rw [hpc]; rfl)),hdest]
    refine ⟨j,n,_,len,block,rfl,?_,tr,s,p,o,[],m,len,block,_,rfl,hcall,hpc,hmade,hlow,hhigh,
      hbuffer,rfl⟩
    rw [callOf_run]
    exact hcall

lemma DeliveryInvariant.queued_stepped (hc : Consistent hash32 s) (bounds : InBounds s)
    (uncreated : Uncreated s) (h : Stepped hash32 s act s') (x : MessagePtr)
    (hx : x ∈ (s'.mailboxes m).messages) : Origin m (tr ++ [(s,act)]) (s'.owner m) x := by
  -- a message that was on the list before
  have hold : x ∈ (s.mailboxes m).messages → Origin m (tr ++ [(s,act)]) (s'.owner m) x := by
    intro hx
    refine (inv.queued x hx).stepped h ?_
    by_contra hnew
    rw [uncreated m (not_lt.mp hnew)] at hx
    cases hx
  rcases h.queued_cases hx with hbefore | ⟨head,hadds⟩
  · exact hold hbefore
  · obtain ⟨p,cs,hmoves,running,hadding,hpc⟩ := h.adder hc hadds
    have hlt := bounds.call_lt (running_eq_some_iff.mp running).2
    rcases hpc with ⟨rfl,hpc⟩ | ⟨rfl,hpc⟩
    · have hpending : (s.pc p).pending m = some x := by
        rw [hpc]
        simp [Pc.pending,hadding]
      obtain ⟨j,n,w,len,block,rfl,hcall,hmade⟩ := inv.pending p x hpending
      rw [owner_stepped h hlt]
      exact ⟨j,n,w,rfl,hmade.mono _,tr,s,act,[],p,len,block,rfl,hmoves,hcall,hadds⟩
    · exact (inv.returning p cs x true hpc hadding).stepped h hlt

lemma DeliveryInvariant.taken_stepped (bounds : InBounds s) (h : Stepped hash32 s act s')
    (p : Pid) (x : MessagePtr) (ptrs : RecievePtrs) (hpc : s'.pc p = .copyToUser m x ptrs) :
    Origin m (tr ++ [(s,act)]) (s'.owner m) x := by
  rcases h.copying hpc with hold | ⟨e,o,cs,rfl,rfl,hold,locked⟩
  · exact (inv.taken p x ptrs hold).stepped h (bounds.tasks p m (by rw [hold]; rfl))
  · obtain ⟨z,hz,rfl⟩ := locked.locked.took inv.exact
    exact (inv.queued z hz).stepped h (bounds.tasks p m (by rw [hold]; rfl))

lemma DeliveryInvariant.returning_stepped (hc : Consistent hash32 s) (bounds : InBounds s)
    (h : Stepped hash32 s act s') (p : Pid) (cs : CallState MessagePtr) (x : MessagePtr)
    (head : Bool) (hpc : s'.pc p = .onMailbox m cs .putBack)
    (adding : cs.adding = some (x,head)) : Origin m (tr ++ [(s,act)]) (s'.owner m) x := by
  rcases h.puttingBack hc hpc adding with ⟨cs',head',hold,hadding⟩ | ⟨ptrs,hold⟩
  · exact (inv.returning p cs' x head' hold hadding).stepped h
      (bounds.tasks p m (by rw [hold]; rfl))
  · exact (inv.taken p x ptrs hold).stepped h (bounds.tasks p m (by rw [hold]; rfl))

omit inv in
theorem deliveryInvariant_of_run (h : Run (step hash32) (initial sig) tr s)
    (alive : ∀ x ∈ tr, ¬ RemovalFinds hash32 x.1 x.2 m) : DeliveryInvariant m tr s := by
  induction h with
  | refl => exact deliveryInvariant_initial
  | @snoc tr s act s' prior taken ih =>
    have hinv := ih fun x hx => alive x (List.mem_append_left _ hx)
    have hs := step_stepped taken
    have hc := consistent_of_run prior
    have hbounds := inBounds_of_run prior
    constructor
    · refine exact_stepped hinv.exact hs ?_
      intro xs hflush
      obtain ⟨x,hx,hfinds⟩ := removal_of_underway prior (underway_of_flush hc hflush)
      exact alive x (List.mem_append_left _ hx) hfinds
    · exact hinv.pending_stepped (callInvariant_of_run prior) hc hbounds hs
    · exact hinv.queued_stepped hc hbounds (uncreated_of_run prior) hs
    · exact hinv.taken_stepped hbounds hs
    · exact hinv.returning_stepped hc hbounds hs

omit inv in
lemma frees_le (h : Stepped hash32 s act s') (n : ℕ) : s.messages.frees n ≤ s'.messages.frees n := by
  -- a message is freed where a task or a flush destroys it, or where it could not be filled
  have hfree : ∀ (h : MessageCache) (k : ℕ), h.frees n ≤ (h.free k).frees n := by
    intro h k
    by_cases hk : n = k
    · subst k
      simp [MessageCache.free]
    · simp [MessageCache.free,hk]
  cases h.cacheStep with
  | same messages => rw [messages]
  | @created p o m len block r action pc made =>
    cases r with
    | ok x =>
      obtain ⟨-,-,-,-,he⟩ := MessageCache.create_eq_ok made
      rw [he]
    | error code =>
      rcases MessageCache.create_eq_error made with he | ⟨-,hfrees⟩
      · rw [he]
      · rw [hfrees]
        exact hfree s.messages s.messages.created
  | @destroyed p o x action pc messages =>
    rw [messages]
    cases x with
    | object k => exact hfree s.messages k
    | listHead k => exact Nat.le_refl _
  | flushed action outcome messages =>
    rw [messages,MessageCache.frees_destroys]
    exact Nat.le_add_right _ _

omit inv in
lemma frees_le_of_run (h : Run (step hash32) s tr s') (n : ℕ) :
    s.messages.frees n ≤ s'.messages.frees n := by
  induction h with
  | refl => exact Nat.le_refl _
  | snoc prior taken ih => exact Nat.le_trans ih (frees_le (step_stepped taken) n)

/-- The receive entered at `i` frees the message object `n`. -/
def Frees (tr : List (System × Action)) (i : ℕ) (n : ℕ) : Prop :=
  ∃ before t p o after c, tr = before ++ (t,.run p o) :: after ∧ callOf p before = some (i,c) ∧
    t.pc p = .destroyMessage (.object n)

omit inv in
/-- A task that has a message object in its hands has one that was not freed. -/
lemma not_freed_before {before mid : List (System × Action)} {t t' : System} {q : Pid} {o : Oracle}
    (h : Run (step hash32) (initial sig) (before ++ (t,.run p o) :: mid) t')
    (first : t.pc p = .destroyMessage (.object n)) :
    t'.pc q ≠ .destroyMessage (.object n) := by
  intro second
  obtain ⟨u,-,htaken,hmid⟩ := h.split_at
  have hu : u.messages.frees n = t.messages.frees n + 1 := by
    have hs' : { t with messages := t.messages.destroy (.object n) }.setPc p (.user (some .ok)) = u := by
      simpa [step,runTask,first] using htaken
    subst u
    exact Function.update_self _ _ _
  have hlive := ((custodyInvariant_of_run h).custody.live (.call q) n
    (show (t'.pc q).holding = some (.object n) by rw [second]; rfl)).2
  have hfrees : t'.messages.frees n = 0 := hlive
  have hle := frees_le_of_run hmid n
  omega

omit inv in
/-- No two receives free the same message. -/
lemma Frees.unique (h : Run (step hash32) (initial sig) tr s) {i' : ℕ} (frees : Frees tr i n)
    (frees' : Frees tr i' n) : i = i' := by
  obtain ⟨b,t,p,o,a,c,htr,hcall,hpc⟩ := frees
  obtain ⟨b',t',p',o',a',c',htr',hcall',hpc'⟩ := frees'
  rcases split_cases (htr.symm.trans htr') with ⟨rfl,hx⟩ | ⟨mid,rfl⟩ | ⟨mid,rfl⟩
  · cases hx
    rw [hcall] at hcall'
    cases hcall'
    rfl
  · obtain ⟨u,hrun,-,-⟩ := (htr' ▸ h).split_at
    exact absurd hpc' (not_freed_before hrun hpc)
  · obtain ⟨u,hrun,-,-⟩ := (htr ▸ h).split_at
    exact absurd hpc (not_freed_before hrun hpc')

/-- The receive entered at `i` by a task of process `g` copies the message object `n` as `w`. -/
def HandsOver (m : ℕ) (tr : List (System × Action)) (i : ℕ) (g : Pid) (n : ℕ) (w : List UserWrite) :
    Prop :=
  ∃ before t p o after ptrs block, tr = before ++ (t,.run p o) :: after ∧
    callOf p before = some (i,.recieveMessage ptrs block) ∧
    t.pc p = .copyToUser m (.object n) ptrs ∧ t.processes.tgid p = g ∧
    ptrs.writable (t.messages.object n) = true ∧ w = copyMessage ptrs (t.messages.object n)

omit inv in
/-- A receive hands over one message. -/
lemma HandsOver.unique (h : Run (step hash32) (initial sig) tr s) {g' : Pid} {n' : ℕ}
    {w' : List UserWrite} (hands : HandsOver m tr i g n w) (hands' : HandsOver m tr i g' n' w') :
    g = g' ∧ w = w' := by
  obtain ⟨b,t,p,o,a,ptrs,block,htr,hcall,hpc,rfl,-,rfl⟩ := hands
  obtain ⟨b',t',p',o',a',ptrs',block',htr',hcall',hpc',rfl,-,rfl⟩ := hands'
  obtain ⟨-,rfl,-,rfl⟩ := keepsLeaving_beforeMessage.once h htr htr' hcall hcall'
    (by rw [hpc]; rfl) (by rw [hpc']; rfl) (fun u hu => copyToUser_stepped hpc hu)
    fun u hu => copyToUser_stepped hpc' hu
  rw [hpc] at hpc'
  cases hpc'
  exact ⟨rfl,rfl⟩

omit inv in
/-- What a receive hands over has been sent to its process. -/
lemma HandsOver.sent (h : Run (step hash32) (initial sig) tr s)
    (alive : ∀ x ∈ tr, ¬ RemovalFinds hash32 x.1 x.2 m) (hands : HandsOver m tr i g n w) :
    ∃ j, Made tr j g n w ∧ Queued m tr j g (.object n) := by
  obtain ⟨before,t,p,o,after,ptrs,block,rfl,hcall,hpc,rfl,hwritable,rfl⟩ := hands
  obtain ⟨u,hrun,-,-⟩ := h.split_at
  have hinv := deliveryInvariant_of_run hrun fun x hx => alive x (List.mem_append_left _ hx)
  obtain ⟨j,n',w,hn,hmade,hqueued⟩ := hinv.taken p (.object n) ptrs hpc
  cases hn
  obtain ⟨i',c,hcall',hserves⟩ := (callInvariant_of_run hrun).serves p (by rw [hpc]; rfl)
  rw [hpc] at hserves
  obtain ⟨howner,block',rfl⟩ := hserves
  have hg : t.owner m = t.processes.tgid p := howner
  rw [hg] at hmade hqueued
  refine ⟨j,?_,hqueued.mono _⟩
  rw [hmade.copies hrun hwritable]
  exact hmade.mono _

omit inv in
/-- A receive that returns zero hands over a message object and frees it. -/
lemma Received.handsOver (h : Run (step hash32) (initial sig) tr s)
    (alive : ∀ x ∈ tr, ¬ RemovalFinds hash32 x.1 x.2 m) (received : Received hash32 m tr i g w) :
    ∃ n, HandsOver m tr i g n w ∧ Frees tr i n := by
  obtain ⟨p,x,htakes,hreturns⟩ := received
  obtain ⟨b,t,o,a,ptrs,block,htr,hcall,hpc,rfl⟩ := htakes
  obtain ⟨b₂,t₂,o₂,a₂,u,c,htr₂,hcall₂,hbusy,htaken,hzero,rfl⟩ := hreturns
  obtain ⟨-,rfl⟩ := eq_of_callOf hcall hcall₂ (htr.symm.trans htr₂)
  obtain ⟨-,hrun₂,-,-⟩ := (htr₂ ▸ h).split_at
  -- the return is from the free of the message that was copied
  obtain ⟨y,hpc₂,hwritten⟩ := destroys_of_returnsZero (receiveInvariant_of_run hrun₂)
    (step_stepped htaken) rfl hbusy hzero hcall₂
  obtain ⟨i₃,ptrs₃,block₃,hcall₃,hcopied⟩ := (receiveInvariant_of_run hrun₂).delivering p y
    (by rw [hpc₂]; rfl)
  rw [hcall₂] at hcall₃
  cases hcall₃
  obtain ⟨b₄,t₄,o₄,a₄,ptrs₄,block₄,k,rfl,hcall₄,hpc₄,hwritable,hw⟩ := hcopied
  -- and that copy is the one that the receive makes
  have htr₄ : tr = b₄ ++ (t₄,.run p o₄) :: (a₄ ++ (t₂,.run p o₂) :: a₂) := by
    rw [htr₂,List.append_assoc,List.cons_append]
  obtain ⟨rfl,rfl,hact,-⟩ := keepsLeaving_beforeMessage.once h htr htr₄ hcall hcall₄
    (by rw [hpc]; rfl) (by rw [hpc₄]; rfl) (fun u hu => copyToUser_stepped hpc hu)
    fun u hu => copyToUser_stepped hpc₄ hu
  rw [hpc] at hpc₄
  cases hpc₄
  obtain ⟨-,hrun,-,-⟩ := (htr ▸ h).split_at
  obtain ⟨j,n,w',rfl,-,-⟩ := (deliveryInvariant_of_run hrun fun z hz => alive z
    (htr ▸ List.mem_append_left _ hz)).taken p x ptrs hpc
  refine ⟨n,⟨b,t,p,o,a,ptrs,block,htr,hcall,hpc,rfl,hwritable,?_⟩,?_⟩
  · rw [hwritten]
    exact hw
  · exact ⟨_,t₂,p,o₂,a₂,_,htr₂,hcall₂,hpc₂⟩

omit inv in
/-- In every run in which the mailbox is not removed, the receives that return zero are matched,
one to one, with sends that put a message on the list for their process, and each has written what
its send was given; what is left in recycled objects makes no difference to any task. -/
theorem delivers_sent_once (h : Run (step hash32) (initial sig) tr s)
    (alive : ∀ x ∈ tr, ¬ RemovalFinds hash32 x.1 x.2 m) :
    (∃ f : ℕ → ℕ, (∀ i g w, Received hash32 m tr i g w → Sent m tr (f i) g w) ∧
      ∀ i i' g g' w w', Received hash32 m tr i g w → Received hash32 m tr i' g' w' →
        f i = f i' → i = i') ∧
      ∀ tr' s', Run (step hash32) (initial sig) tr' s' →
        (tr'.map fun x => x.2.forgetStale) = (tr.map fun x => x.2.forgetStale) →
        ∀ p, s'.pc p = s.pc p ∧ s'.written p = s.written p := by
  constructor
  · -- one send for each receive, found through the message object that the receive frees
    have hmatch : ∀ i, ∃ j, ∀ g w, Received hash32 m tr i g w →
        ∃ n, Made tr j g n w ∧ Queued m tr j g (.object n) ∧ Frees tr i n := by
      intro i
      by_cases hex : ∃ g w, Received hash32 m tr i g w
      · obtain ⟨g₀,w₀,hreceived₀⟩ := hex
        obtain ⟨n,hhands₀,hfrees⟩ := hreceived₀.handsOver h alive
        obtain ⟨j,hmade,hqueued⟩ := hhands₀.sent h alive
        refine ⟨j,fun g w hreceived => ⟨n,?_⟩⟩
        obtain ⟨n',hhands,-⟩ := hreceived.handsOver h alive
        obtain ⟨rfl,rfl⟩ := hhands.unique h hhands₀
        exact ⟨hmade,hqueued,hfrees⟩
      · exact ⟨0,fun g w hreceived => absurd ⟨g,w,hreceived⟩ hex⟩
    choose f hf using hmatch
    refine ⟨f,fun i g w hreceived => ?_,fun i i' g g' w w' hreceived hreceived' he => ?_⟩
    · obtain ⟨n,hmade,hqueued,-⟩ := hf i g w hreceived
      exact ⟨n,hmade,hqueued⟩
    · obtain ⟨n,hmade,-,hfrees⟩ := hf i g w hreceived
      obtain ⟨n',hmade',-,hfrees'⟩ := hf i' g' w' hreceived'
      rw [he] at hmade
      obtain rfl := hmade.once h hmade'
      exact hfrees.unique h hfrees'
  · intro tr' s' h' same p
    obtain ⟨c,rfl,-⟩ := agrees_of_runs h h' same
    exact ⟨rfl,rfl⟩

omit inv in
/-- Process 1001 sends itself two bytes and receives them. -/
theorem delivers_to_itself : ∃ (tr : List (System × Action)) (s : System),
    Run (step goldenHash32) (initial fun _ => false) tr s ∧ s.pc 1001 = .user (some .ok) ∧
      s.written 1001 = [.sender 1001,.len 2,.msg [7,9]] ∧
      ∃ f : ℕ → ℕ, ∀ i g w, Received goldenHash32 0 tr i g w → Sent 0 tr (f i) g w := by
  obtain ⟨tr,s,hrun,htest⟩ := exists_run_of_execute (step goldenHash32) (initial fun _ => false)
    ([.newProcess 1001 1000,.enter 1001 (.sendMessage 1001 2 false)] ++ runs 1001 3 ++
      [.run 1001 ⟨true,true,[7,9],[],0,⟨0,0,[]⟩⟩] ++ runs 1001 2 ++
      [.enter 1001 (.recieveMessage ⟨4,2,4⟩ false)] ++ runs 1001 8)
    (fun tr s => decide (s.pc 1001 = .user (some .ok) ∧
      s.written 1001 = [.sender 1001,.len 2,.msg [7,9]] ∧ (tr.filter isRemoval).length = 0))
    (by decide +kernel)
  obtain ⟨hreturned,hwritten,hnone⟩ := of_decide_eq_true htest
  have halive : ∀ x ∈ tr, ¬ RemovalFinds goldenHash32 x.1 x.2 0 := by
    intro x hx hfinds
    have hmem : x ∈ tr.filter isRemoval := List.mem_filter.mpr ⟨hx,hfinds.isRemoval⟩
    rw [List.length_eq_zero_iff.mp hnone] at hmem
    cases hmem
  obtain ⟨⟨f,hsent,-⟩,-⟩ := delivers_sent_once hrun halive
  exact ⟨tr,s,hrun,hreturned,hwritten,f,hsent⟩

end System
end ProcessMessagePassing
