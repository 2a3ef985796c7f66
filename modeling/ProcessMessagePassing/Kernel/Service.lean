import ProcessMessagePassing.Kernel.Contracts
import ProcessMessagePassing.Mailbox.Deque

/-! What the module is for: one machine with a directory of the mailboxes, each of them an atomic
bounded queue, and the message that every task has in its hands. The system is this machine, seen
through the lists, the table and the hands, whatever runs at once. -/
namespace ProcessMessagePassing
open Concurrency Concurrency.BoundedDeque HashTable

/-- A mailbox as its users see it. For each message that a flush has destroyed it still owes one, and
hands out its list head instead. -/
structure Box where
  owner : Pid
  messages : List MessagePtr
  closed : Bool
  owes : ℕ
  deriving DecidableEq, Repr

@[ext]
structure Service where
  boxes : ℕ → Option Box
  current : Pid → Option ℕ
  hands : Pid → Option MessagePtr

/-- The message that an operation of a queue brings along. -/
def brings : Op MessagePtr → Option MessagePtr
  | .push x _ _ => some x
  | _ => none

namespace Service

/-- One thing that happens: a task does something or is refused, or a deletion thread takes its
mailbox out of the directory, closes it, or flushes it. -/
inductive Event
  | did (p : Pid) (e : Effect)
  | refused (p : Pid) (m : ℕ) (op : Op MessagePtr) (reason : Refusal)
  | unlink (pid : Pid)
  | close (m : ℕ)
  | flush (m : ℕ)
  deriving DecidableEq

def empty : Service := ⟨fun _ => none,fun _ => none,fun _ => none⟩

def setBox (t : Service) (m : ℕ) (b : Box) : Service :=
  { t with boxes := Function.update t.boxes m (some b) }

def setHand (t : Service) (p : Pid) (x : Option MessagePtr) : Service :=
  { t with hands := Function.update t.hands p x }

/-- A process has one mailbox at a time, and that is the one to claim. A message is in the hands of
the task that has made or taken it, up to where it is queued or destroyed; who is refused goes away
with empty hands. A mailbox that is flushed is closed, and nobody finds it any more. -/
inductive Step (t : Service) : Event → Service → Prop
  | create {p m pid} (new : t.boxes m = none) (missing : t.current pid = none) :
      Step t (.did p (.create m))
        { t.setBox m ⟨pid,[],false,0⟩ with current := Function.update t.current pid (some m) }
  | claim {p m b} (box : t.boxes m = some b) (current : t.current b.owner = some m) :
      Step t (.did p (.claim m)) t
  | unclaim {p m b} (box : t.boxes m = some b) : Step t (.did p (.unclaim m)) t
  | make {p n} (free : t.hands p = none) (new : ∀ q, t.hands q ≠ some (.object n))
      (unqueued : ∀ m b, t.boxes m = some b → .object n ∉ b.messages) :
      Step t (.did p (.make (.object n))) (t.setHand p (some (.object n)))
  | push {p m b x front block l} (box : t.boxes m = some b) (has : t.hands p = some x)
      (commit : Commit 32 (.push x front block) b.messages b.closed l b.closed none) :
      Step t (.did p (.push m x front)) ((t.setBox m { b with messages := l }).setHand p none)
  | pop {p m b x block l} (box : t.boxes m = some b) (free : t.hands p = none)
      (commit : Commit 32 (.pop block) b.messages b.closed l b.closed (some x)) :
      Step t (.did p (.pop m x)) ((t.setBox m { b with messages := l }).setHand p (some x))
  | popOwed {p m b n} (box : t.boxes m = some b) (free : t.hands p = none)
      (empty : b.messages = []) (owes : b.owes = n + 1) :
      Step t (.did p (.pop m (.listHead m)))
        ((t.setBox m { b with owes := n }).setHand p (some (.listHead m)))
  | stop {p m b status} (box : t.boxes m = some b) (stops : status ≠ 0) :
      Step t (.did p (.stop m status)) (t.setBox m { b with closed := true })
  | destroy {p x} (has : t.hands p = some x) : Step t (.did p (.destroy x)) (t.setHand p none)
  | refuse {p m b op reason signalled} (box : t.boxes m = some b) (has : t.hands p = brings op)
      (refused : Refused 32 op b.messages b.closed signalled reason) :
      Step t (.refused p m op reason) (t.setHand p none)
  | unlink {pid} : Step t (.unlink pid) { t with current := Function.update t.current pid none }
  | close {m b} (box : t.boxes m = some b) (old : t.current b.owner ≠ some m) :
      Step t (.close m) (t.setBox m { b with closed := true })
  | flush {m b} (box : t.boxes m = some b) (old : t.current b.owner ≠ some m)
      (closed : b.closed = true) :
      Step t (.flush m)
        (t.setBox m { b with messages := [], owes := b.owes + b.messages.length })

lemma setBox_self {t : Service} {m : ℕ} {b : Box} (h : t.boxes m = some b) : t.setBox m b = t := by
  ext1
  · exact Function.update_eq_self_iff.mpr h.symm
  · rfl
  · rfl

lemma setHand_self {t : Service} {p : Pid} {x : Option MessagePtr} (h : t.hands p = x) :
    t.setHand p x = t := by
  ext1
  · rfl
  · rfl
  · exact Function.update_eq_self_iff.mpr h.symm

end Service

/-- A mailbox, seen by its users. -/
def Mailbox.box (m : Mailbox Actor MessagePtr) : Box where
  owner := m.owner
  messages := m.messages
  closed := decide (m.stopped ≠ 0)
  owes := (m.messageCount - m.messages.length).toNat

/-- The count of a mailbox is right until the mailbox is closed and flushed. -/
structure Mailbox.Counted (m : Mailbox Actor MessagePtr) : Prop where
  counts : m.Exact ∨ m.stopped ≠ 0 ∧ m.messages = []
  bounded : m.Bounded
  max : m.messageMax = 32

namespace MailboxSystem

/-- The count is right, or there is nothing to count. -/
structure CountInvariant (s : MailboxSystem Actor MessagePtr) : Prop extends StopInvariant s where
  counts : s.mailbox.Exact ∨ s.mailbox.stopped ≠ 0 ∧ s.mailbox.messages = []

theorem CountInvariant.stepped {s s' : MailboxSystem Actor MessagePtr}
    {act : Action Actor MessagePtr} (h : CountInvariant s) (hs : Stepped s act s') :
    CountInvariant s' := by
  refine ⟨h.toStopInvariant.stepped hs,?_⟩
  cases hs with
  | invoke | signal | handle => exact h.counts
  | @run a cs m p called runnable ended locked =>
    rcases h.counts with hexact | ⟨hstopped,hempty⟩
    · by_cases hflush : ∃ destroyed, p = .flushed destroyed
      · obtain ⟨destroyed,rfl⟩ := hflush
        right
        obtain ⟨hcs,-,-⟩ := locked.flushed_when
        have hdestroying : Destroying (s.calls a) := by
          rw [called]
          rcases hcs with rfl | rfl <;> simp [Destroying]
        exact ⟨h.stopped_stepped (.run called runnable ended locked) (h.destroying a hdestroying),
          locked.flushed_messages⟩
      · left
        exact locked.exact hexact fun destroyed hp => absurd ⟨destroyed,hp⟩ hflush
    · right
      exact ⟨h.stopped_stepped (.run called runnable ended locked) hstopped,
        empty_of_suffix (locked.drains hstopped) hempty⟩

theorem countInvariant_of_run {owner : Pid} {sig : Actor → Bool}
    {tr : List (MailboxSystem Actor MessagePtr × Action Actor MessagePtr)}
    {s : MailboxSystem Actor MessagePtr} (h : Run step (create owner sig) tr s) :
    CountInvariant s :=
  h.invariant ⟨stopInvariant_create owner sig,.inl (Mailbox.exact_create owner)⟩
    fun _ _ _ hs ht => hs.stepped (step_stepped ht)

end MailboxSystem

end ProcessMessagePassing
