import ProcessMessagePassing.Mailbox.Callers

/-! The list of messages and its count. Every section but the flush moves both by the same
amount; the flush empties the list and leaves the count. -/
namespace ProcessMessagePassing
open Concurrency Concurrency.WaitQueue

variable {α μ : Type}

namespace Mailbox

/-- The count is the length of the list. -/
def Exact (m : Mailbox α μ) : Prop := m.messageCount = m.messages.length

/-- The count stays between zero and the size of the mailbox. -/
def Bounded (m : Mailbox α μ) : Prop := 0 ≤ m.messageCount ∧ m.messageCount ≤ m.messageMax

theorem exact_create (owner : Pid) : (create owner : Mailbox α μ).Exact := rfl

theorem bounded_create (owner : Pid) : (create owner : Mailbox α μ).Bounded := by
  simp [Bounded,create]

theorem Exact.insertMessage {m : Mailbox α μ} (h : m.Exact) (x : μ) (head : Bool) :
    (m.insertMessage x head).Exact := by
  unfold Exact at h ⊢
  cases head <;> simp [Mailbox.insertMessage,h]

theorem Exact.takeMessage {m : Mailbox α μ} (h : m.Exact) (some : m.messageCount ≠ 0) :
    m.takeMessage.Exact := by
  unfold Exact at h ⊢
  have hlen : m.messages.length ≠ 0 := by omega
  simp only [Mailbox.takeMessage,wakeUpLocked_messageCount,wakeUpLocked_messages,
    List.length_tail,h]
  omega

/-- Where the count is exact and not zero, the list has a first message. -/
theorem exists_front {m : Mailbox α μ} (exact : m.Exact) (some : m.messageCount ≠ 0) :
    ∃ x rest, m.messages = x :: rest ∧ listEntry m.messages = .node x := by
  unfold Exact at exact
  cases hm : m.messages with
  | nil =>
    rw [hm] at exact
    exact absurd exact some
  | cons x rest => exact ⟨x,rest,rfl,rfl⟩

variable [DecidableEq α] {a : α} {signalPending : Bool} {m m' : Mailbox α μ}
  {cs : CallState μ} {p : Progress μ}

/-- A section keeps the count exact unless it flushes messages. -/
theorem Locked.exact (h : Locked a signalPending m cs m' p) (exact : m.Exact)
    (unflushed : ∀ destroyed, p = .flushed destroyed → destroyed = []) : m'.Exact := by
  cases h with
  | addNow | addWoken => exact Exact.insertMessage exact _ _
  | removeNow some | removeWoken some => exact Exact.takeMessage exact some
  | flushNow =>
    have hnil := unflushed _ rfl
    unfold Exact at exact ⊢
    rw [hnil] at exact
    exact exact
  | unclaimNow => simpa [Exact] using exact
  | _ => exact exact

/-- A flush leaves the count exact only when it finds no message. -/
theorem Locked.flushed_exact {destroyed : List μ}
    (h : Locked a signalPending m cs m' (.flushed destroyed)) (exact : m.Exact)
    (exact' : m'.Exact) : destroyed = [] := by
  cases h with
  | flushNow =>
    unfold Exact at exact exact'
    change m.messageCount = ((0 : ℕ) : ℤ) at exact'
    exact List.length_eq_zero_iff.mp (by omega)

/-- Nobody sleeps on the mailbox any more, or a signal came. -/
theorem Locked.flushed_when {destroyed : List μ}
    (h : Locked a signalPending m cs m' (.flushed destroyed)) :
    (cs = .flush ∨ cs = .flushWaiting) ∧ (m.waiting = 0 ∨ signalPending = true) ∧
      destroyed = m.messages := by
  cases h with
  | flushNow flushing done => exact ⟨flushing,done,rfl⟩

theorem Locked.flushes (h : Locked a signalPending m cs m' p)
    (flushing : cs = .flush ∨ cs = .flushWaiting) (done : m.waiting = 0 ∨ signalPending = true) :
    p = .flushed m.messages := by
  cases h with
  | flushNow => rfl
  | flushSleep _ busy quiet =>
    rcases done with done | signalled
    · exact absurd done busy
    · rw [quiet] at signalled
      cases signalled
  | unclaimedSleep h | unclaimedNow h => rcases h with rfl | rfl <;> simp at flushing
  | _ => simp at flushing

/-- What a receive takes is the front of the list, and it takes it when the count is not zero. -/
theorem Locked.takes {e : ListEntry μ} (h : Locked a signalPending m cs m' (.returned (.message e))) :
    e = listEntry m.messages ∧ m.messageCount ≠ 0 ∧ m'.messages = m.messages.tail := by
  cases h with
  | removeNow some | removeWoken some => exact ⟨rfl,some,rfl⟩

/-- In a mailbox that counts its messages, it is a message of the list. -/
theorem Locked.took {e : ListEntry μ} (h : Locked a signalPending m cs m' (.returned (.message e)))
    (exact : m.Exact) : ∃ x ∈ m.messages, e = .node x := by
  obtain ⟨rfl,hcount,-⟩ := h.takes
  obtain ⟨x,rest,hfront,hnode⟩ := exists_front exact hcount
  refine ⟨x,?_,hnode⟩
  rw [hfront]
  exact List.mem_cons_self

/-- An add puts its message at its end of the list when it returns zero, and nowhere else. -/
theorem Locked.added {x : μ} {head : Bool} {r : Ret μ} (h : Locked a signalPending m cs m' (.returned r))
    (adding : cs.adding = some (x,head)) :
    (r = .code .ok ∧ m'.messages = if head then x :: m.messages else m.messages ++ [x]) ∨
      ∃ c, c ≠ .ok ∧ r = .code c ∧ m'.messages = m.messages := by
  cases h with
  | addNow | addWoken => cases adding; exact .inl ⟨rfl,rfl⟩
  | addStopped | addFull | addSignalled | addWokenStopped | addInterrupted =>
    exact .inr ⟨_,by simp,rfl,rfl⟩
  | _ => cases adding

/-- What is on the list after a section was on it before, or the section has added it. -/
theorem Locked.mem_messages {x : μ} (h : Locked a signalPending m cs m' p) (hx : x ∈ m'.messages) :
    x ∈ m.messages ∨ ∃ head, cs.adding = some (x,head) ∧ p = .returned (.code .ok) := by
  cases h with
  | @addNow y block head | @addWoken y head =>
    have hinsert : x ∈ if head then y :: m.messages else m.messages ++ [y] := hx
    have hcases : x = y ∨ x ∈ m.messages := by
      cases head with
      | true => exact List.mem_cons.mp hinsert
      | false => simpa [or_comm] using hinsert
    rcases hcases with rfl | hold
    · exact .inr ⟨head,rfl,rfl⟩
    · exact .inl hold
  | removeNow | removeWoken => exact .inl (List.mem_of_mem_tail hx)
  | flushNow => cases hx
  | unclaimNow => exact .inl (unclaim_messages m ▸ hx)
  | _ => exact .inl hx

/-- Only adds, receives and the flush change the list. -/
theorem Locked.messages_eq (h : Locked a signalPending m cs m' p)
    (notAdded : p = .returned (.code .ok) → cs.adding = none)
    (notTaken : ∀ e, p ≠ .returned (.message e)) (notFlushed : ∀ xs, p ≠ .flushed xs) :
    m'.messages = m.messages := by
  cases h with
  | addNow | addWoken => cases notAdded rfl
  | removeNow | removeWoken => exact absurd rfl (notTaken _)
  | flushNow => exact absurd rfl (notFlushed _)
  | unclaimNow => exact unclaim_messages m
  | _ => rfl

theorem Locked.messageMax_eq (h : Locked a signalPending m cs m' p) :
    m'.messageMax = m.messageMax := by
  cases h with
  | unclaimNow => exact unclaim_messageMax m
  | _ => rfl

theorem Locked.bounded (h : Locked a signalPending m cs m' p) (bounded : m.Bounded) :
    m'.Bounded := by
  obtain ⟨hlow,hhigh⟩ := bounded
  cases h with
  | addNow _ room => exact ⟨show 0 ≤ m.messageCount + 1 by omega,room⟩
  | addWoken _ room => exact ⟨show 0 ≤ m.messageCount + 1 by omega,room⟩
  | removeNow some =>
    exact ⟨show 0 ≤ m.messageCount - 1 by omega,
      show m.messageCount - 1 ≤ m.messageMax by omega⟩
  | removeWoken some =>
    exact ⟨show 0 ≤ m.messageCount - 1 by omega,
      show m.messageCount - 1 ≤ m.messageMax by omega⟩
  | unclaimNow => exact ⟨by simpa using hlow,by simpa using hhigh⟩
  | _ => exact ⟨hlow,hhigh⟩

end Mailbox

namespace MailboxSystem
variable [DecidableEq α] {owner : Pid} {sig : α → Bool}
  {tr : List (MailboxSystem α μ × Action α μ)} {s : MailboxSystem α μ}

/-- The action runs the flush loop of `mailbox_destroy`. -/
def flushes (s : MailboxSystem α μ) (act : Action α μ) : Bool :=
  match s.outcome act with
  | some (.flushed _) => true
  | _ => false

theorem bounded_of_run (h : Run step (create owner sig) tr s) :
    s.mailbox.Bounded ∧ s.mailbox.messageMax = 32 := by
  refine h.invariant (P := fun t => t.mailbox.Bounded ∧ t.mailbox.messageMax = 32)
    ⟨Mailbox.bounded_create owner,rfl⟩ ?_
  rintro s act s' ⟨hb,hm⟩ ht
  cases step_stepped ht with
  | invoke | signal | handle => exact ⟨hb,hm⟩
  | run _ _ _ locked => exact ⟨locked.bounded hb,locked.messageMax_eq.trans hm⟩

theorem exact_of_run (h : Run step (create owner sig) tr s)
    (unflushed : ∀ x ∈ tr, flushes x.1 x.2 = false) : s.mailbox.Exact := by
  refine h.invariant_of_guard (C := fun t act => flushes t act = false)
    (P := fun t => t.mailbox.Exact) (Mailbox.exact_create owner) ?_ unflushed
  intro s act s' hx hf ht
  cases step_stepped ht with
  | invoke | signal | handle => exact hx
  | run called _ ended locked =>
    refine locked.exact hx fun destroyed hp => ?_
    rw [flushes,ended,hp] at hf
    cases hf

end MailboxSystem
end ProcessMessagePassing
