import ProcessMessagePassing.Kernel.HashTable
import ProcessMessagePassing.Kernel.Message
import ProcessMessagePassing.Kernel.Process
import ProcessMessagePassing.Mailbox.Callers

/-! The module in the kernel: the system calls of every task, the exit hooks and the deletion
threads, over the hash table, the mailboxes and the messages. A step is one critical section,
one read or one copy of one thread. -/
namespace ProcessMessagePassing
open Concurrency HashTable

/-- Who can sleep in a mailbox. -/
inductive Actor
  | task (p : Pid)
  | kthread (k : ℕ)
  deriving DecidableEq, Repr

/-- The message calls with their arguments. The bytes to send are read when they are copied. -/
inductive Syscall
  | sendMessage (dest : Pid) (len : ℤ) (block : Bool)
  | recieveMessage (ptrs : RecievePtrs) (block : Bool)
  | manageMailbox (stop : Bool) (count : UserPtr)
  deriving DecidableEq, Repr

/-- What a thread goes on with when its mailbox function returns. -/
inductive Cont
  | claimed (fresh : Bool) (c : Syscall)
  | refused
  | added
  | removed (ptrs : RecievePtrs)
  | putBack
  | stopped
  | unclaimed (code : Code)
  | delivered (x : MessagePtr)
  | hook (group : Bool)
  deriving DecidableEq, Repr

/-- Where a task stands. `user` has the code that its last call returned. -/
inductive Pc
  | absent
  | user (last : Option Code)
  | validate (pid : Pid) (c : Syscall)
  | lookup (pid : Pid) (c : Syscall)
  | onMailbox (m : ℕ) (cs : CallState MessagePtr) (k : Cont)
  | checkExiting (m : ℕ) (c : Syscall)
  | createMessage (m : ℕ) (len : ℤ) (block : Bool)
  | copyCount (m : ℕ) (stop : Bool) (count : UserPtr)
  | copyToUser (m : ℕ) (x : MessagePtr) (ptrs : RecievePtrs)
  | destroyMessage (x : MessagePtr)
  | exitHook
  | removeLookup (group : Bool)
  | startDeletion (m : ℕ) (group : Bool)
  | realExit (group : Bool)
  | decrementLive
  | die
  | zombie
  deriving DecidableEq, Repr

/-- Where a `mailbox_deletion_thread` stands. -/
inductive DeletionPc
  | start
  | waitExit (pid : Pid)
  | unlink (pid : Pid)
  | destroying (cs : CallState MessagePtr)
  | done
  deriving DecidableEq, Repr

structure DeletionThread where
  mailbox : ℕ
  pc : DeletionPc
  deriving DecidableEq, Repr

/-- The mailboxes and the messages are never reused under their number; an object that was
freed keeps its last contents, but for the owner a deletion thread reads from it. -/
structure System where
  processes : Processes
  pc : Pid → Pc
  signalPending : Actor → Bool
  mailboxes : ℕ → Mailbox Actor MessagePtr
  mailboxesCreated : ℕ
  table : HashTable
  /-- Who holds `mailbox_hash_table_lock`. -/
  tableLock : Option Pid
  messages : MessageCache
  /-- What the current call of each task has written to user space. -/
  written : Pid → List UserWrite
  deletions : ℕ → Option DeletionThread
  deletionsStarted : ℕ

/-- The environment starts and ends tasks, makes calls and sends signals; `run` lets a thread
take its next step. -/
inductive Action
  | newProcess (p : Pid) (uid : ℕ)
  | clone (parent p : Pid)
  | enter (p : Pid) (c : Syscall)
  | exit (p : Pid)
  | exitGroup (p : Pid)
  | fatalSignal (p : Pid)
  | killed (p : Pid)
  | reap (p : Pid)
  | signal (a : Actor)
  | handle (p : Pid)
  | run (p : Pid) (o : Oracle)
  | runDeletion (k : ℕ) (o : Oracle)
  deriving DecidableEq, Repr

/-- The error that a mailbox function returned. -/
def Ret.error : Ret MessagePtr → Code
  | .code c => c
  | .message _ => .ok

/-- The rest of a call that has got its mailbox. -/
def Syscall.begin (m : ℕ) : Syscall → Pc
  | .sendMessage _ len block => .createMessage m len block
  | .recieveMessage ptrs block => .onMailbox m (.removeMessage block) (.removed ptrs)
  | .manageMailbox stop count => .copyCount m stop count

/-- `unclaim_mailbox` on the way out with a code. -/
def Pc.unclaim (m : ℕ) (code : Code) : Pc := .onMailbox m .unclaim (.unclaimed code)

/-- Where a thread goes when its mailbox function has returned. -/
def Cont.resume (m : ℕ) (r : Ret MessagePtr) : Cont → Pc
  | .claimed true c => c.begin m
  | .claimed false c => .checkExiting m c
  | .refused => .user (some .mailboxInvalid)
  | .added => .unclaim m r.error
  | .removed ptrs =>
    match r with
    | .message e => .copyToUser m (.ofEntry m e) ptrs
    | .code c => .unclaim m c
  | .putBack => .unclaim m .msgArgError
  | .stopped => .unclaim m .ok
  | .unclaimed code => .user (some code)
  | .delivered x => .destroyMessage x
  | .hook group => .startDeletion m group

/-- The thread releases the lock of the hash table when its mailbox function has returned. -/
def Cont.unlocks : Cont → Bool
  | .claimed fresh _ => fresh
  | .refused => true
  | .hook _ => true
  | _ => false

namespace System

/-- Nothing has run since the module was loaded. -/
def initial (signalPending : Actor → Bool) : System where
  processes := .initial
  pc := fun _ => .absent
  signalPending := signalPending
  mailboxes := fun _ => .create 0
  mailboxesCreated := 0
  table := .init
  tableLock := none
  messages := .empty
  written := fun _ => []
  deletions := fun _ => none
  deletionsStarted := 0

variable (hash32 : Pid → ℕ)

def owner (s : System) (m : ℕ) : Pid := (s.mailboxes m).owner

/-- `__hashtable_get` with the mailboxes as they are. -/
def get (s : System) (key : Pid) : Option ℕ := hashtableGet hash32 s.owner s.table key

def setPc (s : System) (p : Pid) (c : Pc) : System :=
  { s with pc := Function.update s.pc p c }

def setDeletion (s : System) (k : ℕ) (d : DeletionThread) : System :=
  { s with deletions := Function.update s.deletions k (some d) }

def setMailbox (s : System) (m : ℕ) (mailbox : Mailbox Actor MessagePtr) : System :=
  { s with mailboxes := Function.update s.mailboxes m mailbox }

@[simp] theorem setPc_pc (s : System) (p : Pid) (c : Pc) :
    (s.setPc p c).pc = Function.update s.pc p c := rfl

@[simp] theorem setMailbox_self (s : System) (m : ℕ) (mailbox : Mailbox Actor MessagePtr) :
    (s.setMailbox m mailbox).mailboxes m = mailbox := Function.update_self _ _ _

@[simp] theorem setMailbox_of_ne (s : System) {m n : ℕ} (h : n ≠ m)
    (mailbox : Mailbox Actor MessagePtr) :
    (s.setMailbox m mailbox).mailboxes n = s.mailboxes n := Function.update_of_ne h _ _

/-- The process whose mailbox a call is about. -/
def key (s : System) (p : Pid) : Syscall → Pid
  | .sendMessage dest _ _ => dest
  | .recieveMessage _ _ => s.processes.tgid p
  | .manageMailbox _ _ => s.processes.tgid p

/-- `get_mailbox_for_pid` under the lock, up to the claim. -/
def lookupMailbox (s : System) (p : Pid) (pid : Pid) (c : Syscall) (o : Oracle) : System :=
  match s.get hash32 pid with
  | some m => { s with tableLock := some p }.setPc p (.onMailbox m .claim (.claimed false c))
  | none =>
    if o.alloc then
      let m := s.mailboxesCreated
      let s := { s.setMailbox m (.create pid) with mailboxesCreated := m + 1 }
      { s with
        table := hashtablePut hash32 s.owner s.table pid m
        tableLock := some p }.setPc p (.onMailbox m .claim (.claimed true c))
    else s.setPc p (.user (some .mailboxError))

/-- The next section of a task that is inside a mailbox function. -/
def runSection (s : System) (p : Pid) (m : ℕ) (cs : CallState MessagePtr) (k : Cont) : System :=
  let r := Mailbox.criticalSection (.task p) (s.signalPending (.task p)) (s.mailboxes m) cs
  let s := s.setMailbox m r.1
  match r.2 with
  | .next cs => s.setPc p (.onMailbox m cs k)
  | .flushed _ => s.setPc p (.onMailbox m .awaitUnclaimed k)
  | .returned ret =>
    { s with tableLock := if k.unlocks then none else s.tableLock }.setPc p (k.resume m ret)

/-- `message_create` of `__send_message`, and what follows on its error. -/
def createMessage (s : System) (p : Pid) (m : ℕ) (len : ℤ) (block : Bool) (o : Oracle) :
    System :=
  let r := s.messages.create (s.processes.tgid p) len o
  let s := { s with messages := r.1 }
  match r.2 with
  | .ok x => s.setPc p (.onMailbox m (.addMessage (.object x) block false) .added)
  | .error code => s.setPc p (.unclaim m code)

/-- The copy of `__manage_mailbox`, which reads the count without the lock. -/
def copyCount (s : System) (p : Pid) (m : ℕ) (stop : Bool) (count : UserPtr) : System :=
  if count < sizeofInt then s.setPc p (.unclaim m .msgArgError)
  else
    let write := UserWrite.count (s.mailboxes m).messageCount
    let s := { s with written := Function.update s.written p (s.written p ++ [write]) }
    if stop then s.setPc p (.onMailbox m (.stop stoppedFlag) .stopped)
    else s.setPc p (.unclaim m .ok)

/-- The copies of `__recieve_message`; when one fails the message goes back to the front. -/
def copyToUser (s : System) (p : Pid) (m : ℕ) (x : MessagePtr) (ptrs : RecievePtrs)
    (o : Oracle) : System :=
  let message := s.messages.read o x
  let s := { s with
    written := Function.update s.written p (s.written p ++ copyMessage ptrs message) }
  if ptrs.writable message then s.setPc p (.onMailbox m .unclaim (.delivered x))
  else s.setPc p (.onMailbox m (.addMessage x true true) .putBack)

/-- `remove_mailbox_for_pid` under the lock, up to `mailbox_exiting`. -/
def lookupForRemoval (s : System) (p : Pid) (group : Bool) : System :=
  match s.get hash32 (s.processes.tgid p) with
  | some m =>
    { s with tableLock := some p }.setPc p
      (.onMailbox m (.stop (exitingFlag ||| stoppedFlag)) (.hook group))
  | none => s.setPc p (.realExit group)

/-- `kthread_run(&mailbox_deletion_thread, mailbox, ..)` -/
def kthreadRun (s : System) (m : ℕ) : System :=
  { s.setDeletion s.deletionsStarted ⟨m,.start⟩ with
    deletionsStarted := s.deletionsStarted + 1 }

/-- A task takes its next step. -/
def runTask (s : System) (p : Pid) (o : Oracle) : Option System :=
  match s.pc p with
  | .validate pid c =>
    some (s.setPc p (if s.processes.isProcessValid pid then .lookup pid c
      else .user (some .mailboxInvalid)))
  | .lookup pid c =>
    if s.tableLock = none then some (s.lookupMailbox hash32 p pid c o) else none
  | .onMailbox m cs k =>
    if (s.mailboxes m).runnable (.task p) (s.signalPending (.task p)) cs then
      some (s.runSection p m cs k)
    else none
  | .checkExiting m c =>
    if (s.mailboxes m).stopped &&& exitingFlag ≠ 0 then
      some (s.setPc p (.onMailbox m .unclaim .refused))
    else some ({ s with tableLock := none }.setPc p (c.begin m))
  | .createMessage m len block => some (s.createMessage p m len block o)
  | .copyCount m stop count => some (s.copyCount p m stop count)
  | .copyToUser m x ptrs => some (s.copyToUser p m x ptrs o)
  | .destroyMessage x =>
    some ({ s with messages := s.messages.destroy x }.setPc p (.user (some .ok)))
  | .exitHook =>
    some (s.setPc p (if s.processes.live (s.processes.tgid p) = 1 then .removeLookup false
      else .realExit false))
  | .removeLookup group =>
    if s.tableLock = none then some (s.lookupForRemoval hash32 p group) else none
  | .startDeletion m group =>
    some ((if o.kthreadRun then s.kthreadRun m else s).setPc p (.realExit group))
  | .realExit group =>
    let ps := if group then s.processes.setGroupExit (s.processes.tgid p) else s.processes
    some ({ s with processes := ps.setExiting p }.setPc p .decrementLive)
  | .decrementLive =>
    some ({ s with processes := s.processes.decrementLive p }.setPc p .die)
  | .die => some ({ s with processes := s.processes.die p }.setPc p .zombie)
  | .absent => none
  | .user _ => none
  | .zombie => none

/-- `message_destroy` for every message that a flush took off the list. -/
def destroyMessages (s : System) (xs : List MessagePtr) : System :=
  { s with messages := xs.foldl MessageCache.destroy s.messages }

/-- The next section of `mailbox_destroy`. -/
def runDestroy (s : System) (k : ℕ) (m : ℕ) (cs : CallState MessagePtr) : System :=
  let r := Mailbox.criticalSection (.kthread k) (s.signalPending (.kthread k)) (s.mailboxes m) cs
  let s := s.setMailbox m r.1
  match r.2 with
  | .next cs => s.setDeletion k ⟨m,.destroying cs⟩
  | .flushed xs => (s.destroyMessages xs).setDeletion k ⟨m,.destroying .awaitUnclaimed⟩
  | .returned _ => s.setDeletion k ⟨m,.done⟩

/-- A deletion thread takes its next step. It reads the owner from the mailbox it was given. -/
def runDeletionThread (s : System) (k : ℕ) (d : DeletionThread) (o : Oracle) : Option System :=
  let m := d.mailbox
  match d.pc with
  | .start =>
    let pid := if (s.mailboxes m).frees = 0 then s.owner m else o.staleOwner
    some (s.setDeletion k ⟨m,.waitExit pid⟩)
  | .waitExit pid =>
    if s.processes.isProcessValid pid then some s else some (s.setDeletion k ⟨m,.unlink pid⟩)
  | .unlink pid =>
    if s.tableLock = none then
      some ({ s with table := hashtableRemove hash32 s.owner s.table pid }.setDeletion k
        ⟨m,.destroying .destroy⟩)
    else none
  | .destroying cs =>
    if (s.mailboxes m).runnable (.kthread k) (s.signalPending (.kthread k)) cs then
      some (s.runDestroy k m cs)
    else none
  | .done => none

/-- One step of the system. A task can make a call, exit or be killed only in user mode. -/
def step (s : System) : Action → Option System
  | .newProcess p uid =>
    if s.pc p = .absent ∧ s.processes.task p = none then
      some ({ s with processes := s.processes.newProcess p uid }.setPc p (.user none))
    else none
  | .clone parent p =>
    match s.pc parent, s.processes.task parent with
    | .user _, some task =>
      if s.pc p = .absent ∧ s.processes.task p = none then
        some ({ s with processes := s.processes.clone task p }.setPc p (.user none))
      else none
    | _, _ => none
  | .enter p c =>
    match s.pc p with
    | .user _ =>
      some ({ s with written := Function.update s.written p [] }.setPc p
        (.validate (s.key p c) c))
    | _ => none
  | .exit p =>
    match s.pc p with
    | .user _ => some (s.setPc p .exitHook)
    | _ => none
  | .exitGroup p =>
    match s.pc p with
    | .user _ => some (s.setPc p (.removeLookup true))
    | _ => none
  | .fatalSignal p =>
    if (s.processes.task p).isSome then
      some { s with processes := s.processes.setGroupExit (s.processes.tgid p) }
    else none
  | .killed p =>
    match s.pc p with
    | .user _ =>
      if s.processes.groupExit (s.processes.tgid p) then some (s.setPc p (.realExit false))
      else none
    | _ => none
  | .reap p =>
    if s.pc p = .zombie ∧ s.processes.mayRelease p then
      some ({ s with processes := s.processes.release p }.setPc p .absent)
    else none
  | .signal a => some { s with signalPending := Function.update s.signalPending a true }
  | .handle p =>
    match s.pc p with
    | .user _ =>
      some { s with signalPending := Function.update s.signalPending (.task p) false }
    | _ => none
  | .run p o => s.runTask hash32 p o
  | .runDeletion k o =>
    match s.deletions k with
    | some d => s.runDeletionThread hash32 k d o
    | none => none

/-- The task takes `n` steps in which everything succeeds. -/
def runs (p : Pid) (n : ℕ) : List Action := List.replicate n (.run p .clear)

def runsDeletion (k n : ℕ) : List Action := List.replicate n (.runDeletion k .clear)

end System
end ProcessMessagePassing
