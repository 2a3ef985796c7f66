import ProcessMessagePassing.Kernel.Calls
import ProcessMessagePassing.Mailbox.Contents

/-! A receive that nobody disturbs, step by step. When it fails after it has taken a message, it puts
the message back with `mailbox_add_message`, whose result it ignores. -/
namespace ProcessMessagePassing
open Concurrency

/-- What a failed receive has to leave as it was. -/
structure Snapshot where
  messages : List MessagePtr
  messageCount : ℤ
  stopped : ℕ
  waiting : ℤ
  dereferences : ℤ
  deriving DecidableEq, Repr

def Mailbox.snapshot (m : Mailbox Actor MessagePtr) : Snapshot where
  messages := m.messages
  messageCount := m.messageCount
  stopped := m.stopped
  waiting := m.waiting
  dereferences := m.dereferences

namespace Snapshot

def claim (v : Snapshot) : Snapshot := { v with dereferences := v.dereferences + 1 }

def wait (v : Snapshot) : Snapshot := { v with waiting := v.waiting + 1 }

def take (v : Snapshot) : Snapshot :=
  { v with messages := v.messages.tail, messageCount := v.messageCount - 1 }

end Snapshot

namespace Mailbox
variable {a : Actor} {sig : Bool} {m m' : Mailbox Actor MessagePtr} {v : Snapshot} {x : MessagePtr}
  {rest : List MessagePtr} {pr : Progress MessagePtr}

lemma snapshot_unclaim (h : m.snapshot = v.claim) : m.unclaim.snapshot = v := by
  have hder : m.dereferences - 1 = v.dereferences := by
    rw [show m.dereferences = v.dereferences + 1 from congrArg Snapshot.dereferences h]
    omega
  have hsame : m.unclaim.snapshot = { m.snapshot with dereferences := m.dereferences - 1 } := by
    simp [snapshot]
  rw [hsame,hder,h]
  rfl

lemma snapshot_leaveWait (h : m.snapshot = v.wait) : (m.leaveWait a).snapshot = v := by
  have hwait : m.waiting - 1 = v.waiting := by
    rw [show m.waiting = v.waiting + 1 from congrArg Snapshot.waiting h]
    omega
  have hsame : (m.leaveWait a).snapshot = { m.snapshot with waiting := m.waiting - 1 } := rfl
  rw [hsame,hwait,h]
  rfl

/-- A message that is put back at the front is where it was taken from. -/
lemma snapshot_putBack (h : m.snapshot = v.take) (front : v.messages = x :: rest) :
    (m.insertMessage x true).snapshot = v := by
  have hmessages : m.messages = rest := by
    rw [show m.messages = v.messages.tail from congrArg Snapshot.messages h,front]
    rfl
  have hcount : m.messageCount + 1 = v.messageCount := by
    rw [show m.messageCount = v.messageCount - 1 from congrArg Snapshot.messageCount h]
    omega
  have hsame : (m.insertMessage x true).snapshot =
      { m.snapshot with messages := x :: m.messages, messageCount := m.messageCount + 1 } := rfl
  rw [hsame,hmessages,hcount,h,← front]
  rfl

/-- On an empty list `mailbox_remove_message` fails and changes nothing, or sleeps if the mailbox is
running; else it takes the first message. -/
lemma Locked.removes_alone {block : Bool} (h : Locked a sig m (.removeMessage block) m' pr)
    (exact : m.Exact) :
    (∃ code, code ≠ .ok ∧ pr = .returned (.code code) ∧ m'.snapshot = m.snapshot ∧ m.messages = []) ∨
    (pr = .next .removeWaiting ∧ m'.snapshot = m.snapshot.wait ∧ m.messages = [] ∧ m.stopped = 0) ∨
    ∃ x rest, m.messages = x :: rest ∧ pr = .returned (.message (.node x)) ∧
      m'.snapshot = m.snapshot.take := by
  have hempty : m.messageCount = 0 → m.messages = [] := by
    intro hcount
    apply List.length_eq_zero_iff.mp
    unfold Exact at exact
    omega
  cases h with
  | removeStopped _ empty => exact .inl ⟨.mailboxStopped,nofun,rfl,rfl,hempty empty⟩
  | removeEmpty _ empty => exact .inl ⟨.mailboxEmpty,nofun,rfl,rfl,hempty empty⟩
  | removeSignalled _ empty => exact .inl ⟨.mailboxError,nofun,rfl,rfl,hempty empty⟩
  | removeSleep running empty => exact .inr (.inl ⟨rfl,rfl,hempty empty,running⟩)
  | removeNow some =>
    obtain ⟨x,rest,hfront,hentry⟩ := exists_front exact some
    exact .inr (.inr ⟨x,rest,hfront,congrArg (Progress.returned ∘ Ret.message) hentry,rfl⟩)
  | flushSleep h | flushNow h | unclaimedSleep h | unclaimedNow h => rcases h with h | h <;> cases h

/-- Alone in an empty running mailbox, a sleeper sleeps until a signal comes. -/
lemma Locked.waits_alone (h : Locked a sig m .removeWaiting m' pr) (empty : m.messageCount = 0)
    (running : m.stopped = 0) :
    pr = .returned (.code .mailboxError) ∧ m' = m.leaveWait a ∨
      pr = .next .removeWaiting ∧ m'.snapshot = m.snapshot := by
  cases h with
  | removeWokenStopped stopped => exact absurd running stopped
  | removeWoken some => exact absurd empty some
  | removeInterrupted => exact .inl ⟨rfl,rfl⟩
  | removeAgain => exact .inr ⟨rfl,rfl⟩
  | flushSleep h | flushNow h | unclaimedSleep h | unclaimedNow h => rcases h with h | h <;> cases h

/-- With room for it the message goes back unless the mailbox is stopped. -/
lemma Locked.putsBack_alone (h : Locked a sig m (.addMessage x true true) m' pr)
    (room : m.messageCount < m.messageMax) :
    m.stopped ≠ 0 ∧ m' = m ∧ pr = .returned (.code .mailboxStopped) ∨
      m.stopped = 0 ∧ m' = m.insertMessage x true ∧ pr = .returned (.code .ok) := by
  cases h with
  | addStopped stopped => exact .inl ⟨stopped,rfl,rfl⟩
  | addNow running => exact .inr ⟨running,rfl,rfl⟩
  | addSleep running full | addSignalled running full => exact absurd room (not_lt.mpr full)
  | flushSleep h | flushNow h | unclaimedSleep h | unclaimedNow h => rcases h with h | h <;> cases h

end Mailbox

/-- How many steps a receive has left when it need not wait. -/
def Pc.stepsLeft : Pc → ℕ
  | .validate _ _ => 9
  | .lookup _ _ => 8
  | .onMailbox _ .claim _ => 7
  | .checkExiting _ _ => 6
  | .onMailbox _ (.removeMessage _) _ => 5
  | .onMailbox _ .removeWaiting _ => 5
  | .copyToUser _ _ _ => 4
  | .onMailbox _ (.addMessage _ _ _) _ => 3
  | .onMailbox _ .unclaim _ => 2
  | .destroyMessage _ => 1
  | _ => 0

namespace System
variable {hash32 : Pid → ℕ} {s t t' : System} {act : Action} {later : List (System × Action)} {p : Pid}
  {m n : ℕ} {ptrs : RecievePtrs} {block : Bool} {rest : List MessagePtr} {code : Code}

/-- A task in user mode has a mailbox that is not exiting, with any messages up to the maximum, and
nobody is busy with the hash table. -/
structure Ready (hash32 : Pid → ℕ) (s : System) (p : Pid) (m : ℕ) : Prop where
  user : ∃ last, s.pc p = .user last
  unlocked : s.tableLock = none
  found : s.get hash32 (s.processes.tgid p) = some m
  alive : (s.mailboxes m).stopped &&& exitingFlag = 0
  exact : (s.mailboxes m).Exact
  bounded : ((s.mailboxes m).messages.length : ℤ) ≤ (s.mailboxes m).messageMax
  known : ∀ x ∈ (s.mailboxes m).messages, s.messages.Known x

/-- No other call runs: the task takes a step, or a signal arrives. -/
def Alone (p : Pid) (act : Action) : Prop := (∃ o, act = .run p o) ∨ ∃ a, act = .signal a

/-- The call that the task enters in `s` runs alone and returns the code in `t`. -/
structure ReturnsAlone (hash32 : Pid → ℕ) (s : System) (p : Pid) (c : Syscall)
    (later : List (System × Action)) (t : System) (code : Code) : Prop where
  run : Run (step hash32) s ((s,.enter p c) :: later) t
  alone : ∀ y ∈ later, Alone p y.2
  inCall : ∀ y ∈ later, (y.1.pc p).inCall = true
  returned : t.pc p = .user (some code)

/-- The call of a receive alone returns zero with this message, which is off the list then. -/
structure Gets (s t : System) (p : Pid) (m n : ℕ) (code : Code) : Prop where
  code : code = .ok
  taken : (s.mailboxes m).messages = .object n :: (t.mailboxes m).messages
  written : t.written p = [.sender (s.messages.object n).sender,.len (s.messages.object n).len,
    .msg ((s.messages.object n).msg.take (s.messages.object n).copySize)]

/-- A receive alone comes back, and in every such run it gets the message. -/
structure Delivers (hash32 : Pid → ℕ) (s : System) (p : Pid) (m n : ℕ) (c : Syscall) : Prop where
  comesBack : ∃ later t code, ReturnsAlone hash32 s p c later t code
  gets : ∀ later t code, ReturnsAlone hash32 s p c later t code → Gets s t p m n code

/-- When the receive alone returns an error, the mailbox and all messages are as before it, and the
next receive of a thread of the process with good pointers gets the first message. -/
def FailureKeeps (hash32 : Pid → ℕ) (s : System) (p : Pid) (m : ℕ) (ptrs : RecievePtrs)
    (block : Bool) : Prop :=
  ∀ later t code, ReturnsAlone hash32 s p (.recieveMessage ptrs block) later t code → code ≠ .ok →
    (t.mailboxes m).snapshot = (s.mailboxes m).snapshot ∧ t.messages = s.messages ∧
      ∀ q last n rest ptrs' block', t.pc q = .user last →
        t.processes.tgid q = s.processes.tgid p →
        t.processes.isProcessValid (s.processes.tgid p) = true →
        (s.mailboxes m).messages = .object n :: rest →
        ptrs'.writable (s.messages.object n) = true →
        Delivers hash32 t q m n (.recieveMessage ptrs' block')

/-- The mailbox is stopped and the first message cannot be copied to the user. -/
def LosesMessage (s : System) (p : Pid) (m : ℕ) (ptrs : RecievePtrs) : Prop :=
  s.processes.isProcessValid (s.processes.tgid p) = true ∧ (s.mailboxes m).stopped ≠ 0 ∧
    ∃ n rest, (s.mailboxes m).messages = .object n :: rest ∧
      ptrs.writable (s.messages.object n) = false

/-- What a receive that was entered in `s` and runs alone has done where it stands: to its mailbox, to
the messages, to the lock of the table and to user space. -/
inductive Phase (s : System) (p : Pid) (m : ℕ) (ptrs : RecievePtrs) (block : Bool) :
    Pc → Snapshot → MessageCache → Option Pid → List UserWrite → Prop
  | validate :
      Phase s p m ptrs block (.validate (s.processes.tgid p) (.recieveMessage ptrs block))
        (s.mailboxes m).snapshot s.messages none []
  | lookup (valid : s.processes.isProcessValid (s.processes.tgid p) = true) :
      Phase s p m ptrs block (.lookup (s.processes.tgid p) (.recieveMessage ptrs block))
        (s.mailboxes m).snapshot s.messages none []
  | claim (valid : s.processes.isProcessValid (s.processes.tgid p) = true) :
      Phase s p m ptrs block
        (.onMailbox m .claim (.claimed false (.recieveMessage ptrs block)))
        (s.mailboxes m).snapshot s.messages (some p) []
  | checkExiting (valid : s.processes.isProcessValid (s.processes.tgid p) = true) :
      Phase s p m ptrs block (.checkExiting m (.recieveMessage ptrs block))
        (s.mailboxes m).snapshot.claim s.messages (some p) []
  | remove (valid : s.processes.isProcessValid (s.processes.tgid p) = true) :
      Phase s p m ptrs block (.onMailbox m (.removeMessage block) (.removed ptrs))
        (s.mailboxes m).snapshot.claim s.messages none []
  | asleep (empty : (s.mailboxes m).messages = []) (running : (s.mailboxes m).stopped = 0) :
      Phase s p m ptrs block (.onMailbox m .removeWaiting (.removed ptrs))
        (s.mailboxes m).snapshot.claim.wait s.messages none []
  | copy {n : ℕ} {rest : List MessagePtr} (valid : s.processes.isProcessValid (s.processes.tgid p) = true)
      (front : (s.mailboxes m).messages = .object n :: rest) :
      Phase s p m ptrs block (.copyToUser m (.object n) ptrs)
        (s.mailboxes m).snapshot.claim.take s.messages none []
  | putBack {n : ℕ} {rest : List MessagePtr} {w} (valid : s.processes.isProcessValid (s.processes.tgid p) = true)
      (front : (s.mailboxes m).messages = .object n :: rest)
      (fault : ptrs.writable (s.messages.object n) = false) :
      Phase s p m ptrs block (.onMailbox m (.addMessage (.object n) true true) .putBack)
        (s.mailboxes m).snapshot.claim.take s.messages none w
  | failed {w} {code : Code} (error : code ≠ .ok)
      (fault : ∀ n rest, s.processes.isProcessValid (s.processes.tgid p) = true →
        (s.mailboxes m).messages = .object n :: rest →
        ptrs.writable (s.messages.object n) = false ∧ (s.mailboxes m).stopped = 0) :
      Phase s p m ptrs block (.unclaim m code) (s.mailboxes m).snapshot.claim s.messages none w
  | lost {w} (loses : s.LosesMessage p m ptrs) :
      Phase s p m ptrs block (.unclaim m .msgArgError) (s.mailboxes m).snapshot.claim.take s.messages
        none w
  | delivered {n : ℕ} {rest : List MessagePtr} (front : (s.mailboxes m).messages = .object n :: rest)
      (good : ptrs.writable (s.messages.object n) = true) :
      Phase s p m ptrs block (.onMailbox m .unclaim (.delivered (.object n)))
        (s.mailboxes m).snapshot.claim.take s.messages none
        (copyMessage ptrs (s.messages.object n))
  | destroy {n : ℕ} {rest : List MessagePtr} (front : (s.mailboxes m).messages = .object n :: rest)
      (good : ptrs.writable (s.messages.object n) = true) :
      Phase s p m ptrs block (.destroyMessage (.object n)) (s.mailboxes m).snapshot.take s.messages
        none (copyMessage ptrs (s.messages.object n))
  | returned {w} {code : Code} (error : code ≠ .ok)
      (fault : ∀ n rest, s.processes.isProcessValid (s.processes.tgid p) = true →
        (s.mailboxes m).messages = .object n :: rest →
        ptrs.writable (s.messages.object n) = false ∧ (s.mailboxes m).stopped = 0) :
      Phase s p m ptrs block (.user (some code)) (s.mailboxes m).snapshot s.messages none w
  | returnedLost {w} (loses : s.LosesMessage p m ptrs) :
      Phase s p m ptrs block (.user (some .msgArgError)) (s.mailboxes m).snapshot.take s.messages none w
  | returnedMessage {n : ℕ} {rest : List MessagePtr} {h} (front : (s.mailboxes m).messages = .object n :: rest)
      (good : ptrs.writable (s.messages.object n) = true) :
      Phase s p m ptrs block (.user (some .ok)) (s.mailboxes m).snapshot.take h none
        (copyMessage ptrs (s.messages.object n))

/-- The receive is under way, and nothing else of the system has changed that it depends on. -/
structure During (s : System) (p : Pid) (m : ℕ) (ptrs : RecievePtrs) (block : Bool) (t : System) :
    Prop where
  processes : t.processes = s.processes
  table : t.table = s.table
  owner : t.owner = s.owner
  messageMax : (t.mailboxes m).messageMax = (s.mailboxes m).messageMax
  phase : Phase s p m ptrs block (t.pc p) (t.mailboxes m).snapshot t.messages t.tableLock (t.written p)

/-- What the receive has done where it stands, each part under a name of its own. -/
lemma During.stands (h : During s p m ptrs block t) {c : Pc} (pc : t.pc p = c) :
    ∃ w heap l wr, (t.mailboxes m).snapshot = w ∧ t.messages = heap ∧ t.tableLock = l ∧
      t.written p = wr ∧ Phase s p m ptrs block c w heap l wr := by
  subst c
  exact ⟨_,_,_,_,rfl,rfl,rfl,rfl,h.phase⟩

/-- A step of a task that is in a mailbox function is a section of it. -/
lemma section_of_step {o : Oracle} {cs : CallState MessagePtr} {k : Cont}
    (pc : t.pc p = .onMailbox m cs k) (taken : step hash32 t (.run p o) = some t') :
    ∃ m' pr, t.Section (.task p) m cs m' pr ∧
      ((∃ cs', pr.callState = some cs' ∧ t' = (t.setMailbox m m').setPc p (.onMailbox m cs' k)) ∨
        ∃ r, pr = .returned r ∧ t' = t.returnFrom p m k m' r) := by
  change t.runTask hash32 p o = some t' at taken
  simp only [runTask,pc] at taken
  split_ifs at taken with hrun
  have hsec := section_criticalSection hrun
  cases taken
  unfold runSection
  generalize Mailbox.criticalSection (.task p) (t.signalPending (.task p)) (t.mailboxes m) cs = r
    at hsec ⊢
  obtain ⟨m',pr⟩ := r
  refine ⟨m',pr,hsec,?_⟩
  cases pr with
  | next cs' => exact .inl ⟨cs',rfl,rfl⟩
  | flushed xs => exact .inl ⟨.awaitUnclaimed,rfl,rfl⟩
  | returned ret => exact .inr ⟨ret,rfl,rfl⟩

/-- A step that leaves the mailbox alone. -/
lemma During.next (h : During s p m ptrs block t) {u : System} {c : Pc}
    (processes : u.processes = t.processes) (table : u.table = t.table)
    (mailboxes : u.mailboxes = t.mailboxes)
    (phase : Phase s p m ptrs block c (t.mailboxes m).snapshot u.messages u.tableLock (u.written p)) :
    During s p m ptrs block (u.setPc p c) where
  processes := processes.trans h.processes
  table := table.trans h.table
  owner := by
    rw [← h.owner]
    exact congrArg (fun f n => Mailbox.owner (f n)) mailboxes
  messageMax := (congrArg (fun f => Mailbox.messageMax (f m)) mailboxes).trans h.messageMax
  phase := by
    rw [setPc_self,show ((u.setPc p c).mailboxes m) = t.mailboxes m from congrFun mailboxes m]
    exact phase

/-- A section of the mailbox. -/
lemma During.next_section (h : During s p m ptrs block t) {a : Actor} {cs : CallState MessagePtr}
    {m' : Mailbox Actor MessagePtr} {pr : Progress MessagePtr} (locked : t.Section a m cs m' pr)
    {l : Option Pid} {c : Pc} (phase : Phase s p m ptrs block c m'.snapshot t.messages l (t.written p)) :
    During s p m ptrs block ({ t.setMailbox m m' with tableLock := l }.setPc p c) where
  processes := h.processes
  table := h.table
  owner := locked.owner.trans h.owner
  messageMax := by
    have hmax : m'.messageMax = (s.mailboxes m).messageMax :=
      locked.locked.messageMax_eq.trans h.messageMax
    rw [← hmax]
    exact congrArg Mailbox.messageMax (setMailbox_self t m m')
  phase := by
    rw [setPc_self]
    have hself : ({ t.setMailbox m m' with tableLock := l }.setPc p c).mailboxes m = m' :=
      setMailbox_self t m m'
    rw [hself]
    exact phase

lemma During.next_stays (h : During s p m ptrs block t) {a : Actor} {cs : CallState MessagePtr}
    {m' : Mailbox Actor MessagePtr} {pr : Progress MessagePtr} (locked : t.Section a m cs m' pr) {c : Pc}
    (phase : Phase s p m ptrs block c m'.snapshot t.messages t.tableLock (t.written p)) :
    During s p m ptrs block ((t.setMailbox m m').setPc p c) := h.next_section locked phase

/-- The task comes back from a mailbox function to a caller that keeps the lock as it is. -/
lemma During.next_returned (h : During s p m ptrs block t) {a : Actor} {cs : CallState MessagePtr}
    {m' : Mailbox Actor MessagePtr} {pr : Progress MessagePtr} (locked : t.Section a m cs m' pr)
    {k : Cont} {r : Ret MessagePtr} (keeps : k.unlocks = false)
    (phase : Phase s p m ptrs block (k.resume m r) m'.snapshot t.messages t.tableLock (t.written p)) :
    During s p m ptrs block (t.returnFrom p m k m' r) := by
  apply h.next_section locked
  rw [if_neg (by rw [keeps]; exact Bool.false_ne_true)]
  exact phase

/-- In the state that a receive alone has reached, the mailbox is what the phase says. -/
lemma snapshot_exact {b : Mailbox Actor MessagePtr} (exact : (s.mailboxes m).Exact)
    (h : b.snapshot = (s.mailboxes m).snapshot.claim) : b.Exact := by
  have hcount : b.messageCount = (s.mailboxes m).messageCount := congrArg Snapshot.messageCount h
  have hmessages : b.messages = (s.mailboxes m).messages := congrArg Snapshot.messages h
  unfold Mailbox.Exact
  rw [hcount,hmessages]
  exact exact

/-- A step of the lookup. -/
lemma During.step_lookup (h : During s p m ptrs block t) (ready : Ready hash32 s p m) {o : Oracle}
    (taken : System.step hash32 t (.run p o) = some t')
    (looks : ∃ pid c, t.pc p = .validate pid c ∨ t.pc p = .lookup pid c ∨ t.pc p = .checkExiting m c) :
    During s p m ptrs block t' ∧ (t'.pc p).stepsLeft < (t.pc p).stepsLeft := by
  obtain ⟨pid,call,looks⟩ := looks
  generalize hpc : t.pc p = c at looks ⊢
  obtain ⟨w,heap,l,wr,hw,hh,hl,hwr,hphase⟩ := h.stands hpc
  cases hphase with
  | validate =>
    simp only [System.step,runTask,hpc,h.processes] at taken
    cases hvalid : s.processes.isProcessValid (s.processes.tgid p) with
    | true =>
      simp only [hvalid,if_true] at taken
      cases taken
      refine ⟨h.next rfl rfl rfl ?_,?_⟩
      · rw [hw,hh,hl,hwr]
        exact .lookup hvalid
      · simp [Pc.stepsLeft]
    | false =>
      simp only [hvalid,Bool.false_eq_true,if_false] at taken
      cases taken
      refine ⟨h.next rfl rfl rfl ?_,?_⟩
      · rw [hw,hh,hl,hwr]
        refine .returned (by decide) fun n rest hv => ?_
        rw [hvalid] at hv
        cases hv
      · simp [Pc.stepsLeft]
  | lookup valid =>
    have hget : t.get hash32 (s.processes.tgid p) = some m := by
      unfold get
      rw [h.table,h.owner]
      exact ready.found
    simp only [System.step,runTask,hpc,hl,if_true,lookupMailbox,hget] at taken
    cases taken
    refine ⟨h.next rfl rfl rfl ?_,?_⟩
    · change Phase s p m ptrs block _ _ t.messages (some p) (t.written p)
      rw [hw,hh,hwr]
      exact .claim valid
    · simp [Pc.stepsLeft]
  | checkExiting valid =>
    have hstopped : (t.mailboxes m).stopped = (s.mailboxes m).stopped := congrArg Snapshot.stopped hw
    have halive : ¬ (t.mailboxes m).stopped &&& exitingFlag ≠ 0 := by
      rw [hstopped]
      exact not_not.mpr ready.alive
    simp only [System.step,runTask,hpc,if_neg halive] at taken
    cases taken
    refine ⟨h.next rfl rfl rfl ?_,?_⟩
    · change Phase s p m ptrs block _ _ t.messages none (t.written p)
      rw [hw,hh,hwr]
      exact .remove valid
    · simp [Pc.stepsLeft,Syscall.begin]
  | _ => rcases looks with he | he | he <;> cases he

/-- A task comes back from a mailbox function that is over at once. -/
lemma returnFrom_of_once {o : Oracle} {cs : CallState MessagePtr} {k : Cont}
    (pc : t.pc p = .onMailbox m cs k) (once : cs = .claim ∨ cs = .unclaim)
    (taken : System.step hash32 t (.run p o) = some t') :
    ∃ m', t.Section (.task p) m cs m' (.returned (.code .ok)) ∧
      t' = t.returnFrom p m k m' (.code .ok) := by
  have hnow : cs = .claim ∨ cs = .unclaim ∨ ∃ status, cs = .stop status :=
    once.imp_right Or.inl
  obtain ⟨m',pr,hsec,⟨cs',hstays,-⟩ | ⟨r,rfl,rfl⟩⟩ := section_of_step pc taken
  · rw [hsec.locked.once hnow] at hstays
    cases hstays
  · obtain rfl := hsec.locked.once_ok hnow
    exact ⟨m',hsec,rfl⟩

lemma During.step_claim (h : During s p m ptrs block t) {o : Oracle} {fresh : Bool} {c : Syscall}
    (pc : t.pc p = .onMailbox m .claim (.claimed fresh c))
    (taken : System.step hash32 t (.run p o) = some t') :
    During s p m ptrs block t' ∧ (t'.pc p).stepsLeft < (t.pc p).stepsLeft := by
  obtain ⟨m',hsec,rfl⟩ := returnFrom_of_once pc (.inl rfl) taken
  have hclaim : m' = (t.mailboxes m).claim := congrArg Prod.fst hsec.result.symm
  rw [pc]
  obtain ⟨w,heap,l,wr,hw,hh,hl,hwr,hphase⟩ := h.stands pc
  cases hphase with
  | claim valid =>
    refine ⟨h.next_returned hsec rfl ?_,?_⟩
    · rw [hclaim,hh,hl,hwr]
      change Phase s p m ptrs block _ (t.mailboxes m).snapshot.claim _ _ _
      rw [hw]
      exact .checkExiting valid
    · simp [Pc.stepsLeft,returnFrom,Cont.resume]

lemma During.step_unclaim (h : During s p m ptrs block t) {o : Oracle} {k : Cont}
    (pc : t.pc p = .onMailbox m .unclaim k) (taken : System.step hash32 t (.run p o) = some t') :
    During s p m ptrs block t' ∧ (t'.pc p).stepsLeft < (t.pc p).stepsLeft := by
  obtain ⟨m',hsec,rfl⟩ := returnFrom_of_once pc (.inr rfl) taken
  have hunclaim : m' = (t.mailboxes m).unclaim := congrArg Prod.fst hsec.result.symm
  rw [pc]
  obtain ⟨w,heap,l,wr,hw,hh,hl,hwr,hphase⟩ := h.stands pc
  cases hphase with
  | failed error fault =>
    refine ⟨h.next_returned hsec rfl ?_,?_⟩
    · rw [hunclaim,Mailbox.snapshot_unclaim hw,hh,hl]
      exact .returned error fault
    · simp [Pc.stepsLeft,returnFrom,Cont.resume]
  | lost loses =>
    have hw' : (t.mailboxes m).snapshot = (s.mailboxes m).snapshot.take.claim := hw
    refine ⟨h.next_returned hsec rfl ?_,?_⟩
    · rw [hunclaim,Mailbox.snapshot_unclaim hw',hh,hl]
      exact .returnedLost loses
    · simp [Pc.stepsLeft,returnFrom,Cont.resume]
  | delivered front good =>
    have hw' : (t.mailboxes m).snapshot = (s.mailboxes m).snapshot.take.claim := hw
    refine ⟨h.next_returned hsec rfl ?_,?_⟩
    · rw [hunclaim,Mailbox.snapshot_unclaim hw',hh,hl,hwr]
      exact .destroy front good
    · simp [Pc.stepsLeft,returnFrom,Cont.resume]

lemma During.step_remove (h : During s p m ptrs block t) (ready : Ready hash32 s p m) {o : Oracle}
    {k : Cont} (pc : t.pc p = .onMailbox m (.removeMessage block) k)
    (taken : System.step hash32 t (.run p o) = some t') : During s p m ptrs block t' ∧
      ((t'.pc p).stepsLeft < (t.pc p).stepsLeft ∨ (s.mailboxes m).messages = []) := by
  obtain ⟨m',pr,hsec,hnext⟩ := section_of_step pc taken
  rw [pc]
  obtain ⟨w,heap,l,wr,hw,hh,hl,hwr,hphase⟩ := h.stands pc
  cases hphase with
  | remove valid =>
    have hmessages : (t.mailboxes m).messages = (s.mailboxes m).messages :=
      congrArg Snapshot.messages hw
    have hstopped : (t.mailboxes m).stopped = (s.mailboxes m).stopped := congrArg Snapshot.stopped hw
    rcases hsec.locked.removes_alone (snapshot_exact ready.exact hw) with
      ⟨code,error,rfl,hsame,hempty⟩ | ⟨rfl,hwait,hempty,hrunning⟩ | ⟨x,rest,hfront,rfl,htake⟩
    · rcases hnext with ⟨cs',hstays,-⟩ | ⟨r,hr,rfl⟩
      · cases hstays
      cases hr
      rw [hmessages] at hempty
      refine ⟨h.next_returned hsec rfl ?_,.inr hempty⟩
      rw [hsame,hw,hh,hl]
      refine .failed error fun n rest _ hfront => ?_
      rw [hempty] at hfront
      cases hfront
    · rcases hnext with ⟨cs',hstays,rfl⟩ | ⟨r,hr,-⟩
      · cases hstays
        rw [hmessages] at hempty
        rw [hstopped] at hrunning
        refine ⟨h.next_stays hsec ?_,.inr hempty⟩
        rw [hwait,hw,hh,hl,hwr]
        exact .asleep hempty hrunning
      · cases hr
    · rcases hnext with ⟨cs',hstays,-⟩ | ⟨r,hr,rfl⟩
      · cases hstays
      cases hr
      rw [hmessages] at hfront
      obtain ⟨n,-,rfl⟩ := ready.known x (by rw [hfront]; exact List.mem_cons_self)
      refine ⟨h.next_returned hsec rfl ?_,.inl ?_⟩
      · rw [htake,hw,hh,hl,hwr]
        exact .copy valid hfront
      · simp [Pc.stepsLeft,returnFrom,Cont.resume]

lemma During.step_asleep (h : During s p m ptrs block t) (ready : Ready hash32 s p m) {o : Oracle}
    {k : Cont} (pc : t.pc p = .onMailbox m .removeWaiting k)
    (taken : System.step hash32 t (.run p o) = some t') :
    During s p m ptrs block t' ∧ (s.mailboxes m).messages = [] := by
  obtain ⟨m',pr,hsec,hnext⟩ := section_of_step pc taken
  obtain ⟨w,heap,l,wr,hw,hh,hl,hwr,hphase⟩ := h.stands pc
  cases hphase with
  | asleep empty running =>
    refine ⟨?_,empty⟩
    have hcount : (t.mailboxes m).messageCount = 0 := by
      have hexact : (s.mailboxes m).messageCount = (s.mailboxes m).messages.length := ready.exact
      rw [empty] at hexact
      exact (congrArg Snapshot.messageCount hw).trans hexact
    have hstopped : (t.mailboxes m).stopped = 0 := (congrArg Snapshot.stopped hw).trans running
    rcases hsec.locked.waits_alone hcount hstopped with ⟨rfl,rfl⟩ | ⟨rfl,hsame⟩
    · rcases hnext with ⟨cs',hstays,-⟩ | ⟨r,hr,rfl⟩
      · cases hstays
      cases hr
      refine h.next_returned hsec rfl ?_
      rw [Mailbox.snapshot_leaveWait hw,hh,hl]
      refine .failed nofun fun n rest _ hfront => ?_
      rw [empty] at hfront
      cases hfront
    · rcases hnext with ⟨cs',hstays,rfl⟩ | ⟨r,hr,-⟩
      · cases hstays
        refine h.next_stays hsec ?_
        rw [hsame,hw,hh,hl,hwr]
        exact .asleep empty running
      · cases hr

lemma During.step_copy (h : During s p m ptrs block t) {o : Oracle} {x : MessagePtr}
    (pc : t.pc p = .copyToUser m x ptrs) (taken : System.step hash32 t (.run p o) = some t') :
    During s p m ptrs block t' ∧ (t'.pc p).stepsLeft < (t.pc p).stepsLeft := by
  rw [pc]
  obtain ⟨w,heap,l,wr,hw,hh,hl,hwr,hphase⟩ := h.stands pc
  cases hphase with
  | @copy n rest valid front =>
    have hread : t.messages.read o (.object n) = s.messages.object n := by
      rw [hh]
      rfl
    simp only [System.step,runTask,pc,copyToUser,hread] at taken
    cases hgood : ptrs.writable (s.messages.object n) with
    | true =>
      simp only [hgood,if_true] at taken
      cases taken
      refine ⟨h.next rfl rfl rfl ?_,?_⟩
      · change Phase s p m ptrs block _ _ t.messages t.tableLock
          (Function.update t.written p (t.written p ++ copyMessage ptrs (s.messages.object n)) p)
        rw [Function.update_self,hw,hh,hl,hwr]
        exact .delivered front hgood
      · simp [Pc.stepsLeft]
    | false =>
      simp only [hgood,Bool.false_eq_true,if_false] at taken
      cases taken
      refine ⟨h.next rfl rfl rfl ?_,?_⟩
      · change Phase s p m ptrs block _ _ t.messages t.tableLock _
        rw [hw,hh,hl]
        exact .putBack valid front hgood
      · simp [Pc.stepsLeft]

lemma During.step_putBack (h : During s p m ptrs block t) (ready : Ready hash32 s p m) {o : Oracle}
    {x : MessagePtr} {k : Cont} (pc : t.pc p = .onMailbox m (.addMessage x true true) k)
    (taken : System.step hash32 t (.run p o) = some t') :
    During s p m ptrs block t' ∧ (t'.pc p).stepsLeft < (t.pc p).stepsLeft := by
  obtain ⟨m',pr,hsec,hnext⟩ := section_of_step pc taken
  rw [pc]
  obtain ⟨w,heap,l,wr,hw,hh,hl,hwr,hphase⟩ := h.stands pc
  cases hphase with
  | @putBack n rest w valid front fault =>
    have hstopped : (t.mailboxes m).stopped = (s.mailboxes m).stopped := congrArg Snapshot.stopped hw
    have hcount : (t.mailboxes m).messageCount = (s.mailboxes m).messageCount - 1 :=
      congrArg Snapshot.messageCount hw
    have hroom : (t.mailboxes m).messageCount < (t.mailboxes m).messageMax := by
      have hexact : (s.mailboxes m).messageCount = (s.mailboxes m).messages.length := ready.exact
      have hbounded := ready.bounded
      rw [hcount,h.messageMax]
      omega
    rcases hsec.locked.putsBack_alone hroom with ⟨hstop,rfl,rfl⟩ | ⟨hrun,rfl,rfl⟩
    · rcases hnext with ⟨cs',hstays,-⟩ | ⟨r,hr,rfl⟩
      · cases hstays
      cases hr
      rw [hstopped] at hstop
      refine ⟨h.next_returned hsec rfl ?_,?_⟩
      · rw [hw,hh,hl]
        exact .lost ⟨valid,hstop,n,rest,front,fault⟩
      · simp [Pc.stepsLeft,returnFrom,Cont.resume,Pc.unclaim]
    · rcases hnext with ⟨cs',hstays,-⟩ | ⟨r,hr,rfl⟩
      · cases hstays
      cases hr
      rw [hstopped] at hrun
      refine ⟨h.next_returned hsec rfl ?_,?_⟩
      · rw [Mailbox.snapshot_putBack hw front,hh,hl]
        refine .failed (by decide) fun n' rest' _ hfront => ?_
        rw [front] at hfront
        cases hfront
        exact ⟨fault,hrun⟩
      · simp [Pc.stepsLeft,returnFrom,Cont.resume,Pc.unclaim]

lemma During.step_destroy (h : During s p m ptrs block t) {o : Oracle} {x : MessagePtr}
    (pc : t.pc p = .destroyMessage x) (taken : System.step hash32 t (.run p o) = some t') :
    During s p m ptrs block t' ∧ (t'.pc p).stepsLeft < (t.pc p).stepsLeft := by
  rw [pc]
  obtain ⟨w,heap,l,wr,hw,hh,hl,hwr,hphase⟩ := h.stands pc
  cases hphase with
  | destroy front good =>
    simp only [System.step,runTask,pc] at taken
    cases taken
    refine ⟨h.next rfl rfl rfl ?_,?_⟩
    · change Phase s p m ptrs block _ _ _ t.tableLock (t.written p)
      rw [hw,hl,hwr]
      exact .returnedMessage front good
    · simp [Pc.stepsLeft]

/-- One step of the receive. -/
theorem During.step (h : During s p m ptrs block t) (ready : Ready hash32 s p m) {o : Oracle}
    (taken : System.step hash32 t (.run p o) = some t') : During s p m ptrs block t' ∧
      ((t'.pc p).stepsLeft < (t.pc p).stepsLeft ∨ (s.mailboxes m).messages = []) := by
  generalize hpc : t.pc p = c
  obtain ⟨w,heap,l,wr,-,-,-,-,hphase⟩ := h.stands hpc
  rw [← hpc]
  cases hphase with
  | validate => exact (h.step_lookup ready taken ⟨_,_,.inl hpc⟩).imp_right .inl
  | lookup => exact (h.step_lookup ready taken ⟨_,_,.inr (.inl hpc)⟩).imp_right .inl
  | claim => exact (h.step_claim hpc taken).imp_right .inl
  | checkExiting => exact (h.step_lookup ready taken ⟨0,_,.inr (.inr hpc)⟩).imp_right .inl
  | remove => exact h.step_remove ready hpc taken
  | asleep => exact (h.step_asleep ready hpc taken).imp_right .inr
  | copy => exact (h.step_copy hpc taken).imp_right .inl
  | putBack => exact (h.step_putBack ready hpc taken).imp_right .inl
  | failed => exact (h.step_unclaim hpc taken).imp_right .inl
  | lost => exact (h.step_unclaim hpc taken).imp_right .inl
  | delivered => exact (h.step_unclaim hpc taken).imp_right .inl
  | destroy => exact (h.step_destroy hpc taken).imp_right .inl
  | returned | returnedLost | returnedMessage => simp [System.step,runTask,hpc] at taken

/-- A signal changes nothing that the receive depends on at once. -/
lemma During.signal (h : During s p m ptrs block t) {a : Actor}
    (taken : System.step hash32 t (.signal a) = some t') : During s p m ptrs block t' := by
  cases taken
  exact ⟨h.processes,h.table,h.owner,h.messageMax,h.phase⟩

/-- The state in which the receive has been entered. -/
lemma During.entered (ready : Ready hash32 s p m)
    (taken : System.step hash32 s (.enter p (.recieveMessage ptrs block)) = some t) :
    During s p m ptrs block t := by
  obtain ⟨last,huser⟩ := ready.user
  simp only [System.step,huser] at taken
  cases taken
  have hphase : Phase s p m ptrs block
      (.validate (s.processes.tgid p) (.recieveMessage ptrs block))
      (s.mailboxes m).snapshot s.messages s.tableLock (Function.update s.written p [] p) := by
    rw [ready.unlocked,Function.update_self]
    exact .validate
  refine ⟨rfl,rfl,rfl,rfl,?_⟩
  rw [setPc_self]
  exact hphase

/-- A receive that is under way stays so, until it has returned. -/
theorem During.of_run (ready : Ready hash32 s p m) {code : Code}
    (h : ReturnsAlone hash32 s p (.recieveMessage ptrs block) later t code) :
    During s p m ptrs block t := by
  have hrun : Run (System.step hash32) s ([] ++ (s,.enter p (.recieveMessage ptrs block)) :: later) t :=
    h.run
  obtain ⟨u,-,hentered,hrest⟩ := hrun.split_at
  have hstep : ∀ v act v', During s p m ptrs block v → Alone p act →
      System.step hash32 v act = some v' → During s p m ptrs block v' := by
    rintro v act v' hduring (⟨o,rfl⟩ | ⟨a,rfl⟩) htaken
    · exact (hduring.step ready htaken).1
    · exact hduring.signal htaken
  exact hrest.invariant_of_guard (C := fun _ act => Alone p act) (During.entered ready hentered) hstep
    h.alone

/-- What a receive alone has done when it returns. -/
lemma During.outcome (h : During s p m ptrs block t) {code : Code} (returned : t.pc p = .user (some code)) :
    (code ≠ .ok ∧ (t.mailboxes m).snapshot = (s.mailboxes m).snapshot ∧ t.messages = s.messages ∧
      t.tableLock = none ∧ ∀ n rest, s.processes.isProcessValid (s.processes.tgid p) = true →
        (s.mailboxes m).messages = .object n :: rest →
        ptrs.writable (s.messages.object n) = false ∧ (s.mailboxes m).stopped = 0) ∨
    (code = .msgArgError ∧ (t.mailboxes m).snapshot = (s.mailboxes m).snapshot.take ∧
      s.LosesMessage p m ptrs) ∨
    ∃ n, ptrs.writable (s.messages.object n) = true ∧ code = .ok ∧
      (s.mailboxes m).messages = .object n :: (t.mailboxes m).messages ∧
      t.written p = copyMessage ptrs (s.messages.object n) := by
  obtain ⟨w,heap,l,wr,hw,hh,hl,hwr,hphase⟩ := h.stands returned
  cases hphase with
  | returned error fault => exact .inl ⟨error,hw,hh,hl,fault⟩
  | returnedLost loses => exact .inr (.inl ⟨rfl,hw,loses⟩)
  | @returnedMessage n rest heap front good =>
    refine .inr (.inr ⟨n,good,rfl,?_,hwr⟩)
    have hrest : (t.mailboxes m).messages = (s.mailboxes m).messages.tail :=
      congrArg Snapshot.messages hw
    rw [hrest,front]
    rfl

/-- Wherever it stands, a receive that need not wait can take its next step. -/
lemma During.canStep (h : During s p m ptrs block t) (o : Oracle)
    (nonempty : (s.mailboxes m).messages ≠ []) : (∃ code, t.pc p = .user (some code)) ∨
      (t.pc p).inCall = true ∧ ∃ t', System.step hash32 t (.run p o) = some t' := by
  generalize hpc : t.pc p = c
  obtain ⟨w,heap,l,wr,-,-,hl,-,hphase⟩ := h.stands hpc
  cases hphase with
  | asleep empty => exact absurd empty nonempty
  | returned | returnedLost | returnedMessage => exact .inl ⟨_,rfl⟩
  | validate | lookup | copy | destroy =>
    exact .inr ⟨rfl,by simp [System.step,runTask,hpc,hl]⟩
  | checkExiting =>
    refine .inr ⟨rfl,?_⟩
    simp only [System.step,runTask,hpc]
    split <;> exact ⟨_,rfl⟩
  | claim | remove | putBack | failed | lost | delivered =>
    exact .inr ⟨rfl,by simp [System.step,runTask,hpc,Pc.unclaim,Mailbox.runnable]⟩

/-- A receive that need not wait comes back. -/
theorem During.comesBack (h : During s p m ptrs block t) (ready : Ready hash32 s p m) (o : Oracle)
    (nonempty : (s.mailboxes m).messages ≠ []) : ∃ later u code, Run (System.step hash32) t later u ∧
      (∀ y ∈ later, Alone p y.2) ∧ (∀ y ∈ later, (y.1.pc p).inCall = true) ∧
      u.pc p = .user (some code) := by
  generalize hn : (t.pc p).stepsLeft = left
  induction left using Nat.strong_induction_on generalizing t with
  | _ left ih =>
    have hcan : (∃ code, t.pc p = .user (some code)) ∨
        (t.pc p).inCall = true ∧ ∃ t', System.step hash32 t (.run p o) = some t' :=
      h.canStep o nonempty
    rcases hcan with ⟨code,hpc⟩ | ⟨hin,t',htaken⟩
    · exact ⟨[],t,code,.refl,by simp,by simp,hpc⟩
    · obtain ⟨hnext,hless⟩ := h.step ready htaken
      have hlt : (t'.pc p).stepsLeft < left := by
        rw [← hn]
        exact hless.resolve_right nonempty
      obtain ⟨later,u,code,hrun,halone,hcall,hpc⟩ := ih _ hlt hnext rfl
      refine ⟨(t,.run p o) :: later,u,code,.cons htaken hrun,?_,?_,hpc⟩
      · intro y hy
        rcases List.mem_cons.mp hy with rfl | hy
        · exact .inl ⟨o,rfl⟩
        · exact halone y hy
      · intro y hy
        rcases List.mem_cons.mp hy with rfl | hy
        · exact hin
        · exact hcall y hy

/-- A receive alone on a mailbox with messages returns. -/
theorem exists_returnsAlone (ready : Ready hash32 s p m) (ptrs : RecievePtrs) (block : Bool)
    (nonempty : (s.mailboxes m).messages ≠ []) :
    ∃ later t code, ReturnsAlone hash32 s p (.recieveMessage ptrs block) later t code := by
  obtain ⟨last,huser⟩ := ready.user
  obtain ⟨u,hentered⟩ : ∃ u, System.step hash32 s (.enter p (.recieveMessage ptrs block)) = some u := by
    simp [System.step,huser]
  have hduring : During s p m ptrs block u := During.entered ready hentered
  obtain ⟨later,t,code,hrun,halone,hcall,hpc⟩ := hduring.comesBack ready .clear nonempty
  exact ⟨later,t,code,.cons hentered hrun,halone,hcall,hpc⟩

/-- With good pointers a receive alone gets the first message. -/
theorem delivers_first (ready : Ready hash32 s p m) {n : ℕ} {rest : List MessagePtr}
    (valid : s.processes.isProcessValid (s.processes.tgid p) = true)
    (front : (s.mailboxes m).messages = .object n :: rest)
    (good : ptrs.writable (s.messages.object n) = true) :
    Delivers hash32 s p m n (.recieveMessage ptrs block) where
  comesBack := by
    apply exists_returnsAlone ready
    rw [front]
    exact List.cons_ne_nil _ _
  gets later t code h := by
    rcases (During.of_run ready h).outcome h.returned with
      ⟨-,-,-,-,hfault⟩ | ⟨-,-,-,-,n',rest',hfront,hfault⟩ | ⟨n',hgood,hcode,htaken,hwritten⟩
    · rw [(hfault n rest valid front).1] at good
      cases good
    · rw [front] at hfront
      cases hfront
      rw [hfault] at good
      cases good
    · rw [front] at htaken
      cases htaken
      refine ⟨hcode,front,?_⟩
      rw [hwritten,copyMessage_of_writable hgood]

/-- What a failed receive leaves as it was is as ready for the next one. -/
lemma Ready.after (ready : Ready hash32 s p m) (h : During s p m ptrs block t)
    (same : (t.mailboxes m).snapshot = (s.mailboxes m).snapshot) (messages : t.messages = s.messages)
    (unlocked : t.tableLock = none) {q : Pid} {last : Option Code} (user : t.pc q = .user last)
    (group : t.processes.tgid q = s.processes.tgid p) : Ready hash32 t q m where
  user := ⟨last,user⟩
  unlocked := unlocked
  found := by
    unfold get
    rw [group,h.table,h.owner]
    exact ready.found
  alive := by
    have hstopped : (t.mailboxes m).stopped = (s.mailboxes m).stopped := congrArg Snapshot.stopped same
    rw [hstopped]
    exact ready.alive
  exact := by
    have hcount : (t.mailboxes m).messageCount = (s.mailboxes m).messageCount :=
      congrArg Snapshot.messageCount same
    have hmessages : (t.mailboxes m).messages = (s.mailboxes m).messages :=
      congrArg Snapshot.messages same
    unfold Mailbox.Exact
    rw [hcount,hmessages]
    exact ready.exact
  bounded := by
    have hmessages : (t.mailboxes m).messages = (s.mailboxes m).messages :=
      congrArg Snapshot.messages same
    rw [hmessages,h.messageMax]
    exact ready.bounded
  known := by
    have hmessages : (t.mailboxes m).messages = (s.mailboxes m).messages :=
      congrArg Snapshot.messages same
    rw [hmessages,messages]
    exact ready.known

/-- A message that was taken from a stopped mailbox is refused when it is put back. -/
theorem LosesMessage.not_failureKeeps (loses : s.LosesMessage p m ptrs) (ready : Ready hash32 s p m) :
    ¬ FailureKeeps hash32 s p m ptrs block := by
  intro hkeeps
  obtain ⟨valid,hstopped,n,rest,hfront,hfault⟩ := loses
  have hnonempty : (s.mailboxes m).messages ≠ [] := by
    rw [hfront]
    exact List.cons_ne_nil _ _
  obtain ⟨later,t,code,h⟩ := exists_returnsAlone ready ptrs block hnonempty
  rcases (During.of_run ready h).outcome h.returned with
    ⟨-,-,-,-,hfault'⟩ | ⟨rfl,htake,-⟩ | ⟨n',hgood,-,htaken,-⟩
  · exact hstopped (hfault' n rest valid hfront).2
  · have hsame := (hkeeps later t _ h nofun).1
    rw [htake] at hsame
    have hmessages : (s.mailboxes m).messages.tail = (s.mailboxes m).messages :=
      congrArg Snapshot.messages hsame
    rw [hfront] at hmessages
    exact List.cons_ne_self _ _ hmessages.symm
  · rw [hfront] at htaken
    cases htaken
    rw [hfault] at hgood
    cases hgood

/-- A failed receive leaves the mailbox and all messages as they were, and the message to the next
receive, if and only if it does not have to put a message back into a stopped mailbox. -/
theorem failureKeeps_iff (ready : Ready hash32 s p m) :
    FailureKeeps hash32 s p m ptrs block ↔ ¬ s.LosesMessage p m ptrs := by
  constructor
  · intro hkeeps hloses
    exact hloses.not_failureKeeps ready hkeeps
  · intro hnot later t code h hcode
    have hduring := During.of_run ready h
    rcases hduring.outcome h.returned with
      ⟨-,hsame,hmessages,hunlocked,-⟩ | ⟨-,-,hloses⟩ | ⟨-,-,hok,-⟩
    · refine ⟨hsame,hmessages,?_⟩
      intro q last n rest ptrs' block' huser hgroup hvalid hfront hgood
      have hready := ready.after hduring hsame hmessages hunlocked huser hgroup
      apply delivers_first hready
      · rw [hgroup]
        exact hvalid
      · exact (congrArg Snapshot.messages hsame).trans hfront
      · rw [hmessages]
        exact hgood
    · exact absurd hloses hnot
    · exact absurd hok hcode

/-- `Ready` as a test. -/
def isReady (hash32 : Pid → ℕ) (s : System) (p : Pid) (m : ℕ) : Bool :=
  (match s.pc p with
    | .user _ => true
    | _ => false) &&
  decide (s.tableLock = none ∧ s.get hash32 (s.processes.tgid p) = some m ∧
    (s.mailboxes m).stopped &&& exitingFlag = 0 ∧
    (s.mailboxes m).messageCount = (s.mailboxes m).messages.length ∧
    ((s.mailboxes m).messages.length : ℤ) ≤ (s.mailboxes m).messageMax) &&
  (s.mailboxes m).messages.all fun
    | .object n => decide (n < s.messages.created)
    | .listHead _ => false

lemma ready_of_test (h : isReady hash32 s p m = true) : Ready hash32 s p m := by
  rw [isReady,Bool.and_eq_true,Bool.and_eq_true] at h
  obtain ⟨⟨huser,hstate⟩,hknown⟩ := h
  obtain ⟨hunlocked,hfound,halive,hexact,hbounded⟩ := of_decide_eq_true hstate
  refine ⟨?_,hunlocked,hfound,halive,hexact,hbounded,?_⟩
  · split at huser
    · next last he => exact ⟨last,he⟩
    · cases huser
  · intro x hx
    have hx' := List.all_eq_true.mp hknown x hx
    cases x with
    | object n => exact ⟨n,of_decide_eq_true hx',rfl⟩
    | listHead k => cases hx'

/-- The receive gets null pointers for a message in a running mailbox. -/
theorem failureKeeps_running : ∃ (tr : List (System × Action)) (s : System),
    Run (System.step goldenHash32) (initial fun _ => false) tr s ∧ Ready goldenHash32 s 1001 0 ∧
      (s.mailboxes 0).messages = [.object 0] ∧ FailureKeeps goldenHash32 s 1001 0 ⟨0,0,0⟩ true := by
  obtain ⟨tr,s,hrun,htest⟩ := exists_run_of_execute (System.step goldenHash32) (initial fun _ => false)
    ([.newProcess 1001 1000,.enter 1001 (.sendMessage 1001 0 false)] ++ runs 1001 6)
    (fun _ s => isReady goldenHash32 s 1001 0 && decide ((s.mailboxes 0).stopped = 0 ∧
      (s.mailboxes 0).messages = [.object 0])) (by decide +kernel)
  rw [Bool.and_eq_true] at htest
  obtain ⟨hready,hstate⟩ := htest
  obtain ⟨hrunning,hmessages⟩ := of_decide_eq_true hstate
  refine ⟨tr,s,hrun,ready_of_test hready,hmessages,(failureKeeps_iff (ready_of_test hready)).mpr ?_⟩
  rintro ⟨-,hstopped,-⟩
  exact hstopped hrunning

/-- The same mailbox is stopped before the receive. -/
theorem exists_failure_losing : ∃ (tr : List (System × Action)) (s : System),
    Run (System.step goldenHash32) (initial fun _ => false) tr s ∧ Ready goldenHash32 s 1001 0 ∧
      ¬ FailureKeeps goldenHash32 s 1001 0 ⟨0,0,0⟩ true := by
  obtain ⟨tr,s,hrun,htest⟩ := exists_run_of_execute (System.step goldenHash32) (initial fun _ => false)
    ([.newProcess 1001 1000,.enter 1001 (.sendMessage 1001 0 false)] ++ runs 1001 6 ++
      [.enter 1001 (.manageMailbox true 4)] ++ runs 1001 7)
    (fun _ s => isReady goldenHash32 s 1001 0 && decide ((s.mailboxes 0).stopped ≠ 0 ∧
      s.processes.isProcessValid (s.processes.tgid 1001) = true ∧
      (s.mailboxes 0).messages = [.object 0])) (by decide +kernel)
  rw [Bool.and_eq_true] at htest
  obtain ⟨hready,hstate⟩ := htest
  obtain ⟨hstopped,hvalid,hmessages⟩ := of_decide_eq_true hstate
  refine ⟨tr,s,hrun,ready_of_test hready,?_⟩
  apply LosesMessage.not_failureKeeps _ (ready_of_test hready)
  exact ⟨hvalid,hstopped,0,[],hmessages,rfl⟩

end System
end ProcessMessagePassing
