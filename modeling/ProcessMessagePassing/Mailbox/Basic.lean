import ProcessMessagePassing.Concurrency.WaitQueue
import Mathlib.Data.Int.Basic

/-! The mailbox object and the critical sections of its functions. A section runs from taking
the lock of one of the two wait queues to releasing it, by returning or by falling asleep.
The callers `α` and the message pointers `μ` are left open. -/
namespace ProcessMessagePassing
open Concurrency.WaitQueue

/-- `pid_t` -/
abbrev Pid := ℤ

/-- What the system calls return: zero or one of the error numbers. -/
inductive Code
  | ok
  | mailboxFull
  | mailboxEmpty
  | mailboxStopped
  | mailboxInvalid
  | msgLengthError
  | msgArgError
  | mailboxError
  deriving DecidableEq, Repr

def Code.number : Code → ℕ
  | .ok => 0
  | .mailboxFull => 1001
  | .mailboxEmpty => 1002
  | .mailboxStopped => 1003
  | .mailboxInvalid => 1004
  | .msgLengthError => 1005
  | .msgArgError => 1006
  | .mailboxError => 1007

/-- `STOPPED` -/
def stoppedFlag : ℕ := 0x01
/-- `EXITING`, set together with `STOPPED` -/
def exitingFlag : ℕ := 0x02

structure Mailbox (α μ : Type) where
  owner : Pid
  messageCount : ℤ
  messageMax : ℤ
  stopped : ℕ
  messages : List μ
  modifyQueue : List (Waiter α)
  waiting : ℤ
  dereferenceQueue : List (Waiter α)
  dereferences : ℤ
  /-- How often the object went to `kmem_cache_free`. -/
  frees : ℕ

/-- What `list_entry` makes of the pointer after the list head: the first message, or on an
empty list the head itself taken for a message. -/
inductive ListEntry (μ : Type)
  | node (message : μ)
  | head
  deriving DecidableEq, Repr

def listEntry {μ : Type} : List μ → ListEntry μ
  | [] => .head
  | x :: _ => .node x

/-- Where a caller stands inside a mailbox function: before the lock of a section, or asleep
in the wait loop of one. -/
inductive CallState (μ : Type)
  | addMessage (message : μ) (block head : Bool)
  | addWaiting (message : μ) (head : Bool)
  | removeMessage (block : Bool)
  | removeWaiting
  | stop (status : ℕ)
  | claim
  | unclaim
  | destroy
  | flush
  | flushWaiting
  | awaitUnclaimed
  | awaitingUnclaimed
  | free
  deriving DecidableEq, Repr

inductive Ret (μ : Type)
  | code (c : Code)
  | message (e : ListEntry μ)
  deriving DecidableEq, Repr

/-- How a section ends: inside the function, with the messages it destroyed, or out of it. -/
inductive Progress (μ : Type)
  | next (cs : CallState μ)
  | flushed (destroyed : List μ)
  | returned (r : Ret μ)
  deriving DecidableEq, Repr

namespace Mailbox
variable {α μ : Type}

/-- `mailbox_create` -/
def create (owner : Pid) : Mailbox α μ where
  owner := owner
  messageCount := 0
  messageMax := 32
  stopped := 0
  messages := []
  modifyQueue := []
  waiting := 0
  dereferenceQueue := []
  dereferences := 0
  frees := 0

/-- `mailbox_full` -/
def full (m : Mailbox α μ) : Bool := decide (m.messageMax ≤ m.messageCount)

/-- `wake_up_locked(&mailbox->modify_queue)` -/
def wakeUpLocked (m : Mailbox α μ) : Mailbox α μ := { m with modifyQueue := wakeUp m.modifyQueue }

/-- `list_add` or `list_add_tail`, the count, and the wake-up after them. -/
def insertMessage (m : Mailbox α μ) (x : μ) (head : Bool) : Mailbox α μ :=
  wakeUpLocked { m with
    messages := if head then x :: m.messages else m.messages ++ [x]
    messageCount := m.messageCount + 1 }

/-- `list_del_init` of the first entry, the count, and the wake-up after them. On an empty
list the entry is the head itself and the deletion does nothing. -/
def takeMessage (m : Mailbox α μ) : Mailbox α μ :=
  wakeUpLocked { m with
    messages := m.messages.tail
    messageCount := m.messageCount - 1 }

variable [DecidableEq α]

/-- A sleeper comes out of its wait: off the queue, `atomic_dec`, and the wake-up. -/
def leaveWait (m : Mailbox α μ) (a : α) : Mailbox α μ :=
  wakeUpLocked { m with
    modifyQueue := dequeue a m.modifyQueue
    waiting := m.waiting - 1 }

/-- `mailbox_add_message` from its `wait_event` on. -/
def addMessageWait (a : α) (signalPending : Bool) (m : Mailbox α μ) (x : μ) (head : Bool) :
    Mailbox α μ × Progress μ :=
  let turn := waitEvent (m.stopped ≠ 0 || !m.full) signalPending ⟨a,true⟩ m.modifyQueue
  match turn.1 with
  | .asleep => ({ m with modifyQueue := turn.2 },.next (.addWaiting x head))
  | .interrupted => (m.leaveWait a,.returned (.code .mailboxError))
  | .ready =>
    let m := m.leaveWait a
    if m.stopped ≠ 0 then (m,.returned (.code .mailboxStopped))
    else (m.insertMessage x head,.returned (.code .ok))

/-- `mailbox_add_message` -/
def addMessage (a : α) (signalPending : Bool) (m : Mailbox α μ) (x : μ) (block head : Bool) :
    Mailbox α μ × Progress μ :=
  if m.stopped ≠ 0 then (m,.returned (.code .mailboxStopped))
  else if m.full then
    if block then addMessageWait a signalPending { m with waiting := m.waiting + 1 } x head
    else (m,.returned (.code .mailboxFull))
  else (m.insertMessage x head,.returned (.code .ok))

/-- `mailbox_remove_message` from its `wait_event` on. -/
def removeMessageWait (a : α) (signalPending : Bool) (m : Mailbox α μ) :
    Mailbox α μ × Progress μ :=
  let turn := waitEvent (m.stopped ≠ 0 || m.messageCount ≠ 0) signalPending ⟨a,true⟩ m.modifyQueue
  match turn.1 with
  | .asleep => ({ m with modifyQueue := turn.2 },.next .removeWaiting)
  | .interrupted => (m.leaveWait a,.returned (.code .mailboxError))
  | .ready =>
    let m := m.leaveWait a
    if m.stopped ≠ 0 ∧ m.messageCount = 0 then (m,.returned (.code .mailboxStopped))
    else (m.takeMessage,.returned (.message (listEntry m.messages)))

/-- `mailbox_remove_message` -/
def removeMessage (a : α) (signalPending : Bool) (m : Mailbox α μ) (block : Bool) :
    Mailbox α μ × Progress μ :=
  if m.stopped ≠ 0 ∧ m.messageCount = 0 then (m,.returned (.code .mailboxStopped))
  else if m.messageCount = 0 then
    if block then removeMessageWait a signalPending { m with waiting := m.waiting + 1 }
    else (m,.returned (.code .mailboxEmpty))
  else (m.takeMessage,.returned (.message (listEntry m.messages)))

omit [DecidableEq α] in
/-- `__mailbox_stop` -/
def stop (m : Mailbox α μ) (status : ℕ) : Mailbox α μ :=
  wakeUpLocked { m with stopped := status }

/-- The second section of `mailbox_destroy`: wait until nobody sleeps on the mailbox, then
flush. A signal ends the wait as well, and the count stays what it was. -/
def flush (a : α) (signalPending : Bool) (m : Mailbox α μ) : Mailbox α μ × Progress μ :=
  let turn := waitEvent (m.waiting = 0) signalPending ⟨a,false⟩ m.modifyQueue
  match turn.1 with
  | .asleep => ({ m with modifyQueue := turn.2 },.next .flushWaiting)
  | _ => ({ m with modifyQueue := turn.2, messages := [] },.flushed m.messages)

omit [DecidableEq α] in
/-- `claim_mailbox` -/
def claim (m : Mailbox α μ) : Mailbox α μ := { m with dereferences := m.dereferences + 1 }

omit [DecidableEq α] in
/-- `unclaim_mailbox` -/
def unclaim (m : Mailbox α μ) : Mailbox α μ :=
  let m := { m with dereferences := m.dereferences - 1 }
  if m.dereferences = 0 then { m with dereferenceQueue := wakeUp m.dereferenceQueue } else m

/-- `wait_until_mailbox_unclaimed` -/
def awaitUnclaimed (a : α) (signalPending : Bool) (m : Mailbox α μ) :
    Mailbox α μ × Progress μ :=
  let turn := waitEvent (m.dereferences = 0) signalPending ⟨a,true⟩ m.dereferenceQueue
  match turn.1 with
  | .asleep => ({ m with dereferenceQueue := turn.2 },.next .awaitingUnclaimed)
  | _ => ({ m with dereferenceQueue := turn.2 },.next .free)

/-- The next section of a caller that has the lock. -/
def criticalSection (a : α) (signalPending : Bool) (m : Mailbox α μ) :
    CallState μ → Mailbox α μ × Progress μ
  | .addMessage x block head => addMessage a signalPending m x block head
  | .addWaiting x head => addMessageWait a signalPending m x head
  | .removeMessage block => removeMessage a signalPending m block
  | .removeWaiting => removeMessageWait a signalPending m
  | .stop status => (m.stop status,.returned (.code .ok))
  | .claim => (m.claim,.returned (.code .ok))
  | .unclaim => (m.unclaim,.returned (.code .ok))
  | .destroy => (m.stop (exitingFlag ||| stoppedFlag),.next .flush)
  | .flush => flush a signalPending m
  | .flushWaiting => flush a signalPending m
  | .awaitUnclaimed => awaitUnclaimed a signalPending m
  | .awaitingUnclaimed => awaitUnclaimed a signalPending m
  | .free => ({ m with frees := m.frees + 1 },.returned (.code .ok))

/-- A caller that is not asleep can always go for its lock. A sleeper needs to be off its
queue, where a wake-up took it, or to have a signal pending. -/
def runnable (m : Mailbox α μ) (a : α) (signalPending : Bool) : CallState μ → Bool
  | .addWaiting _ _ => signalPending || decide (a ∉ tasks m.modifyQueue)
  | .removeWaiting => signalPending || decide (a ∉ tasks m.modifyQueue)
  | .flushWaiting => signalPending || decide (a ∉ tasks m.modifyQueue)
  | .awaitingUnclaimed => signalPending || decide (a ∉ tasks m.dereferenceQueue)
  | _ => true

end Mailbox
end ProcessMessagePassing
