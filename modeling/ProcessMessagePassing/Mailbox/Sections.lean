import ProcessMessagePassing.Mailbox.Basic

/-! Every path through a critical section, said once. Invariants of the mailbox are proved by
cases on `Locked` and on the mailbox operations it names, never by unfolding a section. -/
namespace ProcessMessagePassing
open Concurrency.WaitQueue

namespace Mailbox
variable {α μ : Type}

/-! What the operations leave alone. -/

@[simp] theorem wakeUpLocked_owner (m : Mailbox α μ) : m.wakeUpLocked.owner = m.owner := rfl
@[simp] theorem wakeUpLocked_messageCount (m : Mailbox α μ) :
    m.wakeUpLocked.messageCount = m.messageCount := rfl
@[simp] theorem wakeUpLocked_messageMax (m : Mailbox α μ) :
    m.wakeUpLocked.messageMax = m.messageMax := rfl
@[simp] theorem wakeUpLocked_stopped (m : Mailbox α μ) :
    m.wakeUpLocked.stopped = m.stopped := rfl
@[simp] theorem wakeUpLocked_messages (m : Mailbox α μ) :
    m.wakeUpLocked.messages = m.messages := rfl
@[simp] theorem wakeUpLocked_modifyQueue (m : Mailbox α μ) :
    m.wakeUpLocked.modifyQueue = wakeUp m.modifyQueue := rfl
@[simp] theorem wakeUpLocked_waiting (m : Mailbox α μ) :
    m.wakeUpLocked.waiting = m.waiting := rfl
@[simp] theorem wakeUpLocked_dereferenceQueue (m : Mailbox α μ) :
    m.wakeUpLocked.dereferenceQueue = m.dereferenceQueue := rfl
@[simp] theorem wakeUpLocked_dereferences (m : Mailbox α μ) :
    m.wakeUpLocked.dereferences = m.dereferences := rfl
@[simp] theorem wakeUpLocked_frees (m : Mailbox α μ) : m.wakeUpLocked.frees = m.frees := rfl

@[simp] theorem full_wakeUpLocked (m : Mailbox α μ) : m.wakeUpLocked.full = m.full := rfl

theorem full_iff (m : Mailbox α μ) : m.full = true ↔ m.messageMax ≤ m.messageCount := by
  simp [full]

theorem not_full_iff (m : Mailbox α μ) : m.full = false ↔ m.messageCount < m.messageMax := by
  simp [full]

@[simp] theorem unclaim_owner (m : Mailbox α μ) : m.unclaim.owner = m.owner := by
  unfold unclaim; dsimp only; split <;> rfl
@[simp] theorem unclaim_messageCount (m : Mailbox α μ) : m.unclaim.messageCount = m.messageCount := by
  unfold unclaim; dsimp only; split <;> rfl
@[simp] theorem unclaim_messageMax (m : Mailbox α μ) : m.unclaim.messageMax = m.messageMax := by
  unfold unclaim; dsimp only; split <;> rfl
@[simp] theorem unclaim_stopped (m : Mailbox α μ) : m.unclaim.stopped = m.stopped := by
  unfold unclaim; dsimp only; split <;> rfl
@[simp] theorem unclaim_messages (m : Mailbox α μ) : m.unclaim.messages = m.messages := by
  unfold unclaim; dsimp only; split <;> rfl
@[simp] theorem unclaim_modifyQueue (m : Mailbox α μ) : m.unclaim.modifyQueue = m.modifyQueue := by
  unfold unclaim; dsimp only; split <;> rfl
@[simp] theorem unclaim_waiting (m : Mailbox α μ) : m.unclaim.waiting = m.waiting := by
  unfold unclaim; dsimp only; split <;> rfl
@[simp] theorem unclaim_frees (m : Mailbox α μ) : m.unclaim.frees = m.frees := by
  unfold unclaim; dsimp only; split <;> rfl
@[simp] theorem unclaim_dereferences (m : Mailbox α μ) :
    m.unclaim.dereferences = m.dereferences - 1 := by unfold unclaim; dsimp only; split <;> rfl

variable [DecidableEq α]

/-- A blocking call goes to sleep on the mailbox: `atomic_inc`, and the tail of the queue. -/
def enterWait (m : Mailbox α μ) (a : α) : Mailbox α μ :=
  { m with
    modifyQueue := enqueue ⟨a,true⟩ m.modifyQueue
    waiting := m.waiting + 1 }

/-- A blocking call that meets a pending signal before its first sleep. -/
def abandonWait (m : Mailbox α μ) (a : α) : Mailbox α μ :=
  wakeUpLocked { m with modifyQueue := dequeue a m.modifyQueue }

/-- A woken sleeper whose condition is false goes back to the tail. -/
def requeue (m : Mailbox α μ) (w : Waiter α) : Mailbox α μ :=
  { m with modifyQueue := enqueue w m.modifyQueue }

/-- The messages are gone and the flusher is off the queue; the count is not touched. -/
def flushed (m : Mailbox α μ) (a : α) : Mailbox α μ :=
  { m with
    modifyQueue := dequeue a m.modifyQueue
    messages := [] }

/-- The outcomes of one critical section of the caller `a`. -/
inductive Locked (a : α) (signalPending : Bool) (m : Mailbox α μ) :
    CallState μ → Mailbox α μ → Progress μ → Prop
  | addStopped {x block head} (stopped : m.stopped ≠ 0) :
      Locked a signalPending m (.addMessage x block head) m (.returned (.code .mailboxStopped))
  | addFull {x head} (running : m.stopped = 0) (full : m.messageMax ≤ m.messageCount) :
      Locked a signalPending m (.addMessage x false head) m (.returned (.code .mailboxFull))
  | addNow {x block head} (running : m.stopped = 0) (room : m.messageCount < m.messageMax) :
      Locked a signalPending m (.addMessage x block head) (m.insertMessage x head)
        (.returned (.code .ok))
  | addSleep {x head} (running : m.stopped = 0) (full : m.messageMax ≤ m.messageCount)
      (quiet : signalPending = false) :
      Locked a signalPending m (.addMessage x true head) (m.enterWait a)
        (.next (.addWaiting x head))
  | addSignalled {x head} (running : m.stopped = 0) (full : m.messageMax ≤ m.messageCount)
      (signalled : signalPending = true) :
      Locked a signalPending m (.addMessage x true head) (m.abandonWait a)
        (.returned (.code .mailboxError))
  | addWokenStopped {x head} (stopped : m.stopped ≠ 0) :
      Locked a signalPending m (.addWaiting x head) (m.leaveWait a)
        (.returned (.code .mailboxStopped))
  | addWoken {x head} (running : m.stopped = 0) (room : m.messageCount < m.messageMax) :
      Locked a signalPending m (.addWaiting x head) ((m.leaveWait a).insertMessage x head)
        (.returned (.code .ok))
  | addInterrupted {x head} (running : m.stopped = 0) (full : m.messageMax ≤ m.messageCount)
      (signalled : signalPending = true) :
      Locked a signalPending m (.addWaiting x head) (m.leaveWait a)
        (.returned (.code .mailboxError))
  | addAgain {x head} (running : m.stopped = 0) (full : m.messageMax ≤ m.messageCount)
      (quiet : signalPending = false) :
      Locked a signalPending m (.addWaiting x head) (m.requeue ⟨a,true⟩)
        (.next (.addWaiting x head))
  | removeStopped {block} (stopped : m.stopped ≠ 0) (empty : m.messageCount = 0) :
      Locked a signalPending m (.removeMessage block) m (.returned (.code .mailboxStopped))
  | removeEmpty (running : m.stopped = 0) (empty : m.messageCount = 0) :
      Locked a signalPending m (.removeMessage false) m (.returned (.code .mailboxEmpty))
  | removeNow {block} (some : m.messageCount ≠ 0) :
      Locked a signalPending m (.removeMessage block) m.takeMessage
        (.returned (.message (listEntry m.messages)))
  | removeSleep (running : m.stopped = 0) (empty : m.messageCount = 0)
      (quiet : signalPending = false) :
      Locked a signalPending m (.removeMessage true) (m.enterWait a) (.next .removeWaiting)
  | removeSignalled (running : m.stopped = 0) (empty : m.messageCount = 0)
      (signalled : signalPending = true) :
      Locked a signalPending m (.removeMessage true) (m.abandonWait a)
        (.returned (.code .mailboxError))
  | removeWokenStopped (stopped : m.stopped ≠ 0) (empty : m.messageCount = 0) :
      Locked a signalPending m .removeWaiting (m.leaveWait a)
        (.returned (.code .mailboxStopped))
  | removeWoken (some : m.messageCount ≠ 0) :
      Locked a signalPending m .removeWaiting (m.leaveWait a).takeMessage
        (.returned (.message (listEntry m.messages)))
  | removeInterrupted (running : m.stopped = 0) (empty : m.messageCount = 0)
      (signalled : signalPending = true) :
      Locked a signalPending m .removeWaiting (m.leaveWait a) (.returned (.code .mailboxError))
  | removeAgain (running : m.stopped = 0) (empty : m.messageCount = 0)
      (quiet : signalPending = false) :
      Locked a signalPending m .removeWaiting (m.requeue ⟨a,true⟩) (.next .removeWaiting)
  | stopNow {status} :
      Locked a signalPending m (.stop status) (m.stop status) (.returned (.code .ok))
  | claimNow : Locked a signalPending m .claim m.claim (.returned (.code .ok))
  | unclaimNow : Locked a signalPending m .unclaim m.unclaim (.returned (.code .ok))
  | destroyStop :
      Locked a signalPending m .destroy (m.stop (exitingFlag ||| stoppedFlag)) (.next .flush)
  | flushSleep {cs} (flushing : cs = .flush ∨ cs = .flushWaiting) (busy : m.waiting ≠ 0)
      (quiet : signalPending = false) :
      Locked a signalPending m cs (m.requeue ⟨a,false⟩) (.next .flushWaiting)
  | flushNow {cs} (flushing : cs = .flush ∨ cs = .flushWaiting)
      (done : m.waiting = 0 ∨ signalPending = true) :
      Locked a signalPending m cs (m.flushed a) (.flushed m.messages)
  | unclaimedSleep {cs} (awaiting : cs = .awaitUnclaimed ∨ cs = .awaitingUnclaimed)
      (busy : m.dereferences ≠ 0) (quiet : signalPending = false) :
      Locked a signalPending m cs
        { m with dereferenceQueue := enqueue ⟨a,true⟩ m.dereferenceQueue }
        (.next .awaitingUnclaimed)
  | unclaimedNow {cs} (awaiting : cs = .awaitUnclaimed ∨ cs = .awaitingUnclaimed)
      (done : m.dereferences = 0 ∨ signalPending = true) :
      Locked a signalPending m cs { m with dereferenceQueue := dequeue a m.dereferenceQueue }
        (.next .free)
  | freeNow :
      Locked a signalPending m .free { m with frees := m.frees + 1 } (.returned (.code .ok))

variable {a : α} {signalPending : Bool} {m : Mailbox α μ}

lemma addMessageWait_locked (x : μ) (head : Bool) :
    Locked a signalPending m (.addWaiting x head) (addMessageWait a signalPending m x head).1
      (addMessageWait a signalPending m x head).2 := by
  by_cases hs : m.stopped = 0
  · by_cases hf : m.messageMax ≤ m.messageCount
    · cases hp : signalPending with
      | false =>
        have h : addMessageWait a false m x head = (m.requeue ⟨a,true⟩,.next (.addWaiting x head)) := by
          simp [addMessageWait,waitEvent,full,hs,hf,requeue]
        rw [h]
        exact .addAgain hs hf rfl
      | true =>
        have h : addMessageWait a true m x head = (m.leaveWait a,.returned (.code .mailboxError)) := by
          simp [addMessageWait,waitEvent,full,hs,hf]
        rw [h]
        exact .addInterrupted hs hf rfl
    · have h : addMessageWait a signalPending m x head =
          ((m.leaveWait a).insertMessage x head,.returned (.code .ok)) := by
        simp [addMessageWait,waitEvent,full,hs,hf,leaveWait]
      rw [h]
      exact .addWoken hs (by omega)
  · have h : addMessageWait a signalPending m x head =
        (m.leaveWait a,.returned (.code .mailboxStopped)) := by
      simp [addMessageWait,waitEvent,hs,leaveWait]
    rw [h]
    exact .addWokenStopped hs

lemma addMessage_locked (x : μ) (block head : Bool) :
    Locked a signalPending m (.addMessage x block head)
      (addMessage a signalPending m x block head).1
      (addMessage a signalPending m x block head).2 := by
  by_cases hs : m.stopped = 0
  · by_cases hf : m.messageMax ≤ m.messageCount
    · cases block with
      | false => simpa [addMessage,full,hs,hf] using Locked.addFull hs hf
      | true =>
        cases hp : signalPending with
        | false =>
          have h : addMessage a false m x true head = (m.enterWait a,.next (.addWaiting x head)) := by
            simp [addMessage,addMessageWait,waitEvent,full,hs,hf,enterWait]
          rw [h]
          exact .addSleep hs hf rfl
        | true =>
          have h : addMessage a true m x true head =
              (m.abandonWait a,.returned (.code .mailboxError)) := by
            simp [addMessage,addMessageWait,waitEvent,full,hs,hf,leaveWait,abandonWait]
          rw [h]
          exact .addSignalled hs hf rfl
    · have h : addMessage a signalPending m x block head =
          (m.insertMessage x head,.returned (.code .ok)) := by simp [addMessage,full,hs,hf]
      rw [h]
      exact .addNow hs (by omega)
  · simpa [addMessage,hs] using Locked.addStopped hs

lemma removeMessageWait_locked :
    Locked a signalPending m .removeWaiting (removeMessageWait a signalPending m).1
      (removeMessageWait a signalPending m).2 := by
  by_cases hc : m.messageCount = 0
  · by_cases hs : m.stopped = 0
    · cases hp : signalPending with
      | false =>
        have h : removeMessageWait a false m = (m.requeue ⟨a,true⟩,.next .removeWaiting) := by
          simp [removeMessageWait,waitEvent,hs,hc,requeue]
        rw [h]
        exact .removeAgain hs hc rfl
      | true =>
        have h : removeMessageWait a true m = (m.leaveWait a,.returned (.code .mailboxError)) := by
          simp [removeMessageWait,waitEvent,hs,hc]
        rw [h]
        exact .removeInterrupted hs hc rfl
    · have h : removeMessageWait a signalPending m =
          (m.leaveWait a,.returned (.code .mailboxStopped)) := by
        simp [removeMessageWait,waitEvent,hs,hc,leaveWait]
      rw [h]
      exact .removeWokenStopped hs hc
  · have h : removeMessageWait a signalPending m =
        ((m.leaveWait a).takeMessage,.returned (.message (listEntry m.messages))) := by
      simp [removeMessageWait,waitEvent,hc,leaveWait]
    rw [h]
    exact .removeWoken hc

lemma removeMessage_locked (block : Bool) :
    Locked a signalPending m (.removeMessage block) (removeMessage a signalPending m block).1
      (removeMessage a signalPending m block).2 := by
  by_cases hc : m.messageCount = 0
  · by_cases hs : m.stopped = 0
    · cases block with
      | false => simpa [removeMessage,hs,hc] using Locked.removeEmpty hs hc
      | true =>
        cases hp : signalPending with
        | false =>
          have h : removeMessage a false m true = (m.enterWait a,.next .removeWaiting) := by
            simp [removeMessage,removeMessageWait,waitEvent,hs,hc,enterWait]
          rw [h]
          exact .removeSleep hs hc rfl
        | true =>
          have h : removeMessage a true m true =
              (m.abandonWait a,.returned (.code .mailboxError)) := by
            simp [removeMessage,removeMessageWait,waitEvent,hs,hc,leaveWait,abandonWait]
          rw [h]
          exact .removeSignalled hs hc rfl
    · simpa [removeMessage,hs,hc] using Locked.removeStopped hs hc
  · simpa [removeMessage,hc] using Locked.removeNow hc

lemma flush_locked {cs : CallState μ} (hcs : cs = .flush ∨ cs = .flushWaiting) :
    Locked a signalPending m cs (flush a signalPending m).1 (flush a signalPending m).2 := by
  by_cases hw : m.waiting = 0
  · have h : flush a signalPending m = (m.flushed a,.flushed m.messages) := by
      simp [flush,waitEvent,hw,flushed]
    rw [h]
    exact .flushNow hcs (.inl hw)
  · cases hp : signalPending with
    | false =>
      have h : flush a false m = (m.requeue ⟨a,false⟩,.next .flushWaiting) := by
        simp [flush,waitEvent,hw,requeue]
      rw [h]
      exact .flushSleep hcs hw rfl
    | true =>
      have h : flush a true m = (m.flushed a,.flushed m.messages) := by
        simp [flush,waitEvent,hw,flushed]
      rw [h]
      exact .flushNow hcs (.inr rfl)

lemma awaitUnclaimed_locked {cs : CallState μ}
    (hcs : cs = .awaitUnclaimed ∨ cs = .awaitingUnclaimed) :
    Locked a signalPending m cs (awaitUnclaimed a signalPending m).1
      (awaitUnclaimed a signalPending m).2 := by
  by_cases hd : m.dereferences = 0
  · simpa [awaitUnclaimed,waitEvent,hd] using Locked.unclaimedNow hcs (.inl hd)
  · cases hp : signalPending with
    | false => simpa [awaitUnclaimed,waitEvent,hd] using Locked.unclaimedSleep hcs hd rfl
    | true => simpa [awaitUnclaimed,waitEvent,hd] using Locked.unclaimedNow hcs (.inr rfl)

/-- What a section does is one of the listed outcomes. -/
theorem criticalSection_locked (a : α) (signalPending : Bool) (m : Mailbox α μ)
    (cs : CallState μ) :
    Locked a signalPending m cs (criticalSection a signalPending m cs).1
      (criticalSection a signalPending m cs).2 := by
  cases cs with
  | addMessage x block head => exact addMessage_locked x block head
  | addWaiting x head => exact addMessageWait_locked x head
  | removeMessage block => exact removeMessage_locked block
  | removeWaiting => exact removeMessageWait_locked
  | stop status => exact .stopNow
  | claim => exact .claimNow
  | unclaim => exact .unclaimNow
  | destroy => exact .destroyStop
  | flush => exact flush_locked (.inl rfl)
  | flushWaiting => exact flush_locked (.inr rfl)
  | awaitUnclaimed => exact awaitUnclaimed_locked (.inl rfl)
  | awaitingUnclaimed => exact awaitUnclaimed_locked (.inr rfl)
  | free => exact .freeNow

end Mailbox
end ProcessMessagePassing
