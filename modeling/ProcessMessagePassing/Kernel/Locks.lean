import ProcessMessagePassing.Concurrency.SpinLock
import ProcessMessagePassing.Kernel.Consistent

/-! The spin locks of the module. The functions are followed from one acquisition or release to the
next; `error` and `k` are what their callers do after an error and after success. -/
namespace ProcessMessagePassing
open Concurrency

/-- `mailbox_hash_table_lock`, and the locks of the two wait queues of a mailbox. -/
inductive Lock
  | table
  | modifyQueue (m : ℕ)
  | dereferenceQueue (m : ℕ)
  deriving DecidableEq, Repr

/-- What puts a thread to sleep. -/
inductive Sleep
  | waitQueue
  | msleep
  | copyFromUser
  | copyToUser
  | kthreadRun
  deriving DecidableEq, Repr

/-- The lock of the table is the outer one. -/
def Lock.rank : Lock → ℕ
  | .table => 0
  | .modifyQueue _ => 1
  | .dereferenceQueue _ => 1

namespace Locks

abbrev LockCode := SpinLock.Code Lock Sleep

/-- `claim_mailbox` -/
def claimMailbox (m : ℕ) (k : LockCode) : LockCode :=
  .lock (.dereferenceQueue m) (.unlock (.dereferenceQueue m) k)

/-- `unclaim_mailbox` -/
def unclaimMailbox (m : ℕ) (k : LockCode) : LockCode :=
  .lock (.dereferenceQueue m) (.unlock (.dereferenceQueue m) k)

/-- `wait_until_mailbox_unclaimed` -/
def waitUntilMailboxUnclaimed (m : ℕ) (k : LockCode) : LockCode :=
  .lock (.dereferenceQueue m)
    (.waitEvent .waitQueue (.dereferenceQueue m) (.unlock (.dereferenceQueue m) k))

/-- `__mailbox_stop` -/
def mailboxStop (m : ℕ) (k : LockCode) : LockCode :=
  .lock (.modifyQueue m) (.unlock (.modifyQueue m) k)

/-- `mailbox_add_message` and `mailbox_remove_message` after their wait: a signal came, the mailbox
was stopped, or the list is changed. -/
def afterWait (m : ℕ) (error k : LockCode) : LockCode :=
  .choice (.unlock (.modifyQueue m) error)
    (.choice (.unlock (.modifyQueue m) error) (.unlock (.modifyQueue m) k))

/-- The common form of the two: the mailbox is stopped, or it is full (empty) and the call blocks or
does not, or the list is changed at once. -/
def changeMessages (m : ℕ) (error k : LockCode) : LockCode :=
  .lock (.modifyQueue m)
    (.choice (.unlock (.modifyQueue m) error)
      (.choice
        (.choice (.waitEvent .waitQueue (.modifyQueue m) (afterWait m error k))
          (.unlock (.modifyQueue m) error))
        (.unlock (.modifyQueue m) k)))

/-- `mailbox_add_message` -/
def mailboxAddMessage (m : ℕ) (error k : LockCode) : LockCode := changeMessages m error k

/-- `mailbox_remove_message` -/
def mailboxRemoveMessage (m : ℕ) (error k : LockCode) : LockCode := changeMessages m error k

/-- `mailbox_destroy` from its flush on. -/
def flushMessages (m : ℕ) (k : LockCode) : LockCode :=
  .lock (.modifyQueue m)
    (.waitEvent .waitQueue (.modifyQueue m)
      (.unlock (.modifyQueue m) (waitUntilMailboxUnclaimed m k)))

/-- `mailbox_destroy` -/
def mailboxDestroy (m : ℕ) (k : LockCode) : LockCode := mailboxStop m (flushMessages m k)

/-- `get_mailbox_for_pid` with a mailbox that it has found and claimed: it is exiting, or it is handed
out. -/
def checkExiting (m : ℕ) (error k : LockCode) : LockCode :=
  .choice (unclaimMailbox m (.unlock .table error)) (.unlock .table k)

/-- `get_mailbox_for_pid` for a valid process: the mailbox is missing and cannot be created, it is
created, or it is found. -/
def lookupMailbox (error : LockCode) (k : ℕ → LockCode) : LockCode :=
  .lock .table
    (.choice
      (.choice (.unlock .table error)
        (.any fun m => claimMailbox m (.unlock .table (k m))))
      (.any fun m => claimMailbox m (checkExiting m error (k m))))

/-- `get_mailbox_for_pid` -/
def getMailboxForPid (error : LockCode) (k : ℕ → LockCode) : LockCode :=
  .choice error (lookupMailbox error k)

/-- `remove_mailbox_for_pid` -/
def removeMailboxForPid (k : LockCode) : LockCode :=
  .lock .table
    (.choice (.any fun m => mailboxStop m (.unlock .table (.sleep .kthreadRun k)))
      (.unlock .table k))

/-- `__send_message` with its mailbox. The message has a bad length, or there is no memory for it, or
it is copied. -/
def createMessage (m : ℕ) : LockCode :=
  .choice (unclaimMailbox m .done)
    (.sleep .copyFromUser
      (.choice (unclaimMailbox m .done)
        (mailboxAddMessage m (unclaimMailbox m .done) (unclaimMailbox m .done))))

/-- `__recieve_message` with its message. When one of the three copies fails the message is put back,
whatever comes of that. -/
def copyMessage (m : ℕ) : LockCode :=
  let putBack := mailboxAddMessage m (unclaimMailbox m .done) (unclaimMailbox m .done)
  .sleep .copyToUser (.choice putBack
    (.sleep .copyToUser (.choice putBack
      (.sleep .copyToUser (.choice putBack (unclaimMailbox m .done))))))

/-- `__manage_mailbox` with its mailbox. -/
def copyCount (m : ℕ) : LockCode :=
  .sleep .copyToUser
    (.choice (unclaimMailbox m .done)
      (.choice (mailboxStop m (unclaimMailbox m .done)) (unclaimMailbox m .done)))

/-- A call that has got its mailbox. -/
def begin (m : ℕ) : Syscall → LockCode
  | .sendMessage _ _ _ => createMessage m
  | .recieveMessage _ _ => mailboxRemoveMessage m (unclaimMailbox m .done) (copyMessage m)
  | .manageMailbox _ _ => copyCount m

/-- `__send_message`, `__recieve_message` and `__manage_mailbox` -/
def call (c : Syscall) : LockCode := getMailboxForPid .done fun m => begin m c

/-- `mailbox_deletion_thread` -/
def mailboxDeletionThread (m : ℕ) : LockCode :=
  .star (.sleep .msleep .done) (.lock .table (.unlock .table (mailboxDestroy m .done)))

/-- What a thread can be started with. -/
inductive Routine
  | call (c : Syscall)
  | newSysExit
  | newSysExitGroup
  | mailboxDeletionThread (m : ℕ)
  deriving DecidableEq, Repr

/-- The exit hooks end in the exit of the kernel. -/
def Routine.code : Routine → LockCode
  | .call c => Locks.call c
  | .newSysExit => .choice (removeMailboxForPid .done) .done
  | .newSysExitGroup => removeMailboxForPid .done
  | .mailboxDeletionThread m => Locks.mailboxDeletionThread m

section Checks
open SpinLock.Code

variable {h' : Set Lock} {m : ℕ} {error k : LockCode}

/-- A claim, an unclaim or a stop can be made under the lock of the table. -/
lemma checks_inner {h : Set Lock} {l : Lock} (outer : ∀ x ∈ h, x = .table) (inner : l.rank = 1)
    (hk : k.Checks Lock.rank h h') : (SpinLock.Code.lock l (.unlock l k)).Checks Lock.rank h h' := by
  apply checks_section _ hk
  intro x hx
  rw [outer x hx,inner]
  exact Nat.zero_lt_one

lemma outer_table : ∀ x ∈ ({.table} : Set Lock), x = .table := fun _ hx => hx

lemma outer_empty : ∀ x ∈ (∅ : Set Lock), x = .table := fun x hx => absurd hx (Set.notMem_empty x)

lemma checks_claimMailbox (hk : k.Checks Lock.rank {.table} h') :
    (claimMailbox m k).Checks Lock.rank {.table} h' := checks_inner outer_table rfl hk

lemma checks_unclaimMailbox {h : Set Lock} (outer : ∀ x ∈ h, x = .table)
    (hk : k.Checks Lock.rank h h') : (unclaimMailbox m k).Checks Lock.rank h h' :=
  checks_inner outer rfl hk

lemma checks_mailboxStop {h : Set Lock} (outer : ∀ x ∈ h, x = .table)
    (hk : k.Checks Lock.rank h h') : (mailboxStop m k).Checks Lock.rank h h' :=
  checks_inner outer rfl hk

lemma checks_unclaim_done : (unclaimMailbox m .done).Checks Lock.rank ∅ ∅ :=
  checks_unclaimMailbox outer_empty rfl

lemma checks_changeMessages (he : error.Checks Lock.rank ∅ h') (hk : k.Checks Lock.rank ∅ h') :
    (changeMessages m error k).Checks Lock.rank ∅ h' := by
  have herror := checks_release (l := Lock.modifyQueue m) he
  have hdone := checks_release (l := Lock.modifyQueue m) hk
  exact checks_acquire ⟨herror,⟨checks_waitEvent ⟨herror,herror,hdone⟩,herror⟩,hdone⟩

lemma checks_waitUntilMailboxUnclaimed (hk : k.Checks Lock.rank ∅ h') :
    (waitUntilMailboxUnclaimed m k).Checks Lock.rank ∅ h' :=
  checks_acquire (checks_waitEvent (checks_release hk))

lemma checks_mailboxDestroy (hk : k.Checks Lock.rank ∅ h') :
    (mailboxDestroy m k).Checks Lock.rank ∅ h' := by
  apply checks_mailboxStop outer_empty
  exact checks_acquire (checks_waitEvent (checks_release (checks_waitUntilMailboxUnclaimed hk)))

lemma checks_getMailboxForPid {k : ℕ → LockCode} (he : error.Checks Lock.rank ∅ h')
    (hk : ∀ m, (k m).Checks Lock.rank ∅ h') :
    (getMailboxForPid error k).Checks Lock.rank ∅ h' := by
  have herror := checks_release (l := Lock.table) he
  have hdone := fun m => checks_release (l := Lock.table) (hk m)
  refine ⟨he,checks_acquire ⟨⟨herror,fun m => checks_claimMailbox (hdone m)⟩,fun m => ?_⟩⟩
  exact checks_claimMailbox ⟨checks_unclaimMailbox outer_table herror,hdone m⟩

lemma checks_removeMailboxForPid (hk : k.Checks Lock.rank ∅ h') :
    (removeMailboxForPid k).Checks Lock.rank ∅ h' := by
  refine checks_acquire ⟨fun m => checks_mailboxStop outer_table (checks_release ⟨rfl,hk⟩),?_⟩
  exact checks_release hk

lemma checks_begin (m : ℕ) (c : Syscall) : (begin m c).Checks Lock.rank ∅ ∅ := by
  have hunclaim : ∀ m, (unclaimMailbox m .done).Checks Lock.rank ∅ ∅ := fun m => checks_unclaim_done
  have hadd : (mailboxAddMessage m (unclaimMailbox m .done) (unclaimMailbox m .done)).Checks
      Lock.rank ∅ ∅ := checks_changeMessages (hunclaim m) (hunclaim m)
  cases c with
  | sendMessage => exact ⟨hunclaim m,rfl,hunclaim m,hadd⟩
  | recieveMessage =>
    exact checks_changeMessages (hunclaim m) ⟨rfl,hadd,rfl,hadd,rfl,hadd,hunclaim m⟩
  | manageMailbox =>
    exact ⟨rfl,hunclaim m,checks_mailboxStop outer_empty (hunclaim m),hunclaim m⟩

/-- Every routine follows the order of the locks, sleeps without one and gives all of them back. -/
theorem checks_code (r : Routine) : r.code.Checks Lock.rank ∅ ∅ := by
  cases r with
  | call c => exact checks_getMailboxForPid rfl fun m => checks_begin m c
  | newSysExit => exact ⟨checks_removeMailboxForPid rfl,rfl⟩
  | newSysExitGroup => exact checks_removeMailboxForPid rfl
  | mailboxDeletionThread m =>
    exact ⟨⟨rfl,rfl⟩,checks_acquire (checks_release (checks_mailboxDestroy rfl))⟩

end Checks

/-- The threads of the module, with their lock operations as separate steps. -/
abbrev LockSystem (ι : Type) := SpinLock.State ι Lock Sleep

def step {ι : Type} [DecidableEq ι] (t : LockSystem ι) (act : SpinLock.Action ι Routine) :
    Option (LockSystem ι) :=
  SpinLock.State.step Routine.code t act

/-- No interleaving of message calls, exit hooks and deletion threads deadlocks on the spin locks. -/
theorem locks_safe {ι : Type} [DecidableEq ι] {tr : List (LockSystem ι × SpinLock.Action ι Routine)}
    {t : LockSystem ι} (h : Run step .initial tr t) : t.Safe :=
  (SpinLock.State.checked_of_run checks_code h).safe

/-- A task that exits spins for the lock of the table while a send claims its mailbox under it. -/
theorem locks_safe_of_exit_during_send : ∃ tr t, Run step (.initial : LockSystem Bool) tr t ∧ t.Safe ∧
    t.owner .table = some false ∧ t.owner (.dereferenceQueue 5) = some false ∧ t.Spins true false := by
  obtain ⟨tr,t,hrun,htest⟩ := exists_run_of_execute step (.initial : LockSystem Bool)
    [.start false (.call (.sendMessage 8 3 true)),.start true .newSysExit,.run false 1,.run false 0,
      .run true 0,.run false 1,.run false 5,.run false 0]
    (fun _ t => decide (t.owner .table = some false) &&
      decide (t.owner (.dereferenceQueue 5) = some false) &&
      match t.code true with
      | .lock .table _ => true
      | _ => false) (by decide)
  simp only [Bool.and_eq_true,decide_eq_true_eq] at htest
  obtain ⟨⟨htable,hclaim⟩,hcode⟩ := htest
  refine ⟨tr,t,hrun,locks_safe hrun,htable,hclaim,.table,?_⟩
  split at hcode
  · next k hk => exact ⟨k,hk,htable⟩
  · cases hcode

end Locks
end ProcessMessagePassing
