import ProcessMessagePassing.Concurrency.Holders
import ProcessMessagePassing.Mailbox.Callers

/-! The sleepers of a mailbox. Every entry of `modify_queue` belongs to a caller asleep in its
wait loop, and `waiting` counts the callers between `atomic_inc` and `atomic_dec`. -/
namespace ProcessMessagePassing
open Concurrency Concurrency.WaitQueue

variable {α μ : Type}

/-- The exclusive flag of the entry a sleeper puts on `modify_queue`. -/
def CallState.entryFlag : CallState μ → Option Bool
  | .addWaiting _ _ => some true
  | .removeWaiting => some true
  | .flushWaiting => some false
  | _ => none

/-- The same for a caller that may not be in any call. -/
def entryFlag (c : Option (CallState μ)) : Option Bool := c.bind CallState.entryFlag

@[simp] theorem entryFlag_none : entryFlag (none : Option (CallState μ)) = none := rfl
@[simp] theorem entryFlag_some (cs : CallState μ) : entryFlag (some cs) = cs.entryFlag := rfl
@[simp] theorem entryFlag_start (c : Call μ) : c.start.entryFlag = none := by cases c <;> rfl

namespace Mailbox
variable [DecidableEq α]

/-- What a section does to the queue, from the entry flag of its caller before the section to
the one after it. -/
inductive QueueStep (a : α) (m : Mailbox α μ) :
    Option Bool → Mailbox α μ → Option Bool → Prop
  | idle {m'} (queue : m'.modifyQueue = m.modifyQueue) (waiting : m'.waiting = m.waiting)
      (stopped : m'.stopped = m.stopped) (count : m'.messageCount = m.messageCount) :
      QueueStep a m none m' none
  | wake {m'} (q : List (Waiter α)) (sub : q.Sublist m.modifyQueue)
      (queue : m'.modifyQueue = wakeUp q) (waiting : m'.waiting = m.waiting) :
      QueueStep a m none m' none
  | leave {m'} (q : List (Waiter α)) (sub : q.Sublist m.modifyQueue) (off : a ∉ tasks q)
      (queue : m'.modifyQueue = wakeUp q) (waiting : m'.waiting = m.waiting - 1) :
      QueueStep a m (some true) m' none
  | enter (running : m.stopped = 0) : QueueStep a m none (m.enterWait a) (some true)
  | again (running : m.stopped = 0) :
      QueueStep a m (some true) (m.requeue ⟨a,true⟩) (some true)
  | join {flag} (flush : flag = none ∨ flag = some false) (busy : m.waiting ≠ 0) :
      QueueStep a m flag (m.requeue ⟨a,false⟩) (some false)
  | drop {flag} (flush : flag = none ∨ flag = some false) :
      QueueStep a m flag (m.flushed a) none

lemma flushing_flag {cs : CallState μ} (h : cs = .flush ∨ cs = .flushWaiting) :
    cs.entryFlag = none ∨ cs.entryFlag = some false := by
  rcases h with rfl | rfl
  · exact .inl rfl
  · exact .inr rfl

lemma awaiting_flag {cs : CallState μ} (h : cs = .awaitUnclaimed ∨ cs = .awaitingUnclaimed) :
    cs.entryFlag = none := by rcases h with rfl | rfl <;> rfl

/-- Each path of a section is one of the queue steps. -/
theorem Locked.queueStep {a : α} {signalPending : Bool} {m m' : Mailbox α μ}
    {cs : CallState μ} {p : Progress μ} (h : Locked a signalPending m cs m' p) :
    QueueStep a m cs.entryFlag m' (entryFlag p.callState) := by
  cases h with
  | addStopped | addFull | removeStopped | removeEmpty | claimNow | freeNow =>
    exact .idle rfl rfl rfl rfl
  | unclaimNow => exact .idle (by simp) (by simp) (by simp) (by simp)
  | addNow | removeNow | stopNow | destroyStop =>
    exact .wake m.modifyQueue (List.Sublist.refl _) rfl rfl
  | addSignalled | removeSignalled =>
    exact .wake (dequeue a m.modifyQueue) (dequeue_sublist _ _) rfl rfl
  | addSleep running | removeSleep running => exact .enter running
  | addWokenStopped | addInterrupted | removeWokenStopped | removeInterrupted =>
    exact .leave (dequeue a m.modifyQueue) (dequeue_sublist _ _) (notMem_tasks_dequeue _ _)
      rfl rfl
  | addWoken | removeWoken =>
    exact .leave (wakeUp (dequeue a m.modifyQueue))
      ((wakeUp_sublist _).trans (dequeue_sublist _ _))
      (notMem_tasks_wakeUp (notMem_tasks_dequeue _ _)) rfl rfl
  | addAgain running | removeAgain running => exact .again running
  | flushSleep flushing busy => exact .join (flushing_flag flushing) busy
  | flushNow flushing => exact .drop (flushing_flag flushing)
  | unclaimedSleep awaiting =>
    rw [awaiting_flag awaiting]
    exact .idle rfl rfl rfl rfl
  | unclaimedNow awaiting =>
    rw [awaiting_flag awaiting]
    exact .idle rfl rfl rfl rfl

end Mailbox

namespace MailboxSystem

/-- The queue lists sleepers only, each once and under its own flag. -/
def Entries (calls : α → Option (CallState μ)) (q : List (Waiter α)) : Prop :=
  (tasks q).Nodup ∧ ∀ w ∈ q, entryFlag (calls w.task) = some w.exclusive

namespace Entries
variable {calls : α → Option (CallState μ)} {q q' : List (Waiter α)}

theorem sublist (h : Entries calls q) (hq : q'.Sublist q) : Entries calls q' :=
  ⟨h.1.sublist (hq.map _),fun w hw => h.2 w (hq.subset hw)⟩

theorem notMem (h : Entries calls q) {a : α} (ha : entryFlag (calls a) = none) :
    a ∉ tasks q := by
  intro hm
  obtain ⟨w,hw,rfl⟩ := List.mem_map.mp hm
  rw [h.2 w hw] at ha
  cases ha

/-- An exclusive sleeper that is off the queue has been woken. -/
def Woken (calls : α → Option (CallState μ)) (q : List (Waiter α)) (a : α) : Prop :=
  entryFlag (calls a) = some true ∧ a ∉ tasks q

/-- A wake-up that leaves anybody on the queue has woken an exclusive sleeper. -/
theorem woken_of_wakeUp (h : Entries calls q) (hq : wakeUp q ≠ []) :
    ∃ a, Woken calls (wakeUp q) a := by
  have hex : ∃ w ∈ q, w.exclusive = true := by
    by_contra hne
    push Not at hne
    exact hq (wakeUp_eq_nil fun w hw => by simpa using hne w hw)
  obtain ⟨w,hw,he⟩ := hex
  obtain ⟨v,hv,hve,hvq⟩ := exists_exclusive_woken h.1 hw he
  exact ⟨v.task,by rw [h.2 v hv,hve],hvq⟩

variable [DecidableEq α] {a : α} {v : Option (CallState μ)}

/-- A woken sleeper stays woken when somebody else moves on. -/
theorem Woken.update {b : α} (h : Woken calls q b) (ha : entryFlag (calls a) ≠ some true) :
    Woken (Function.update calls a v) q b := by
  have hne : b ≠ a := fun he => ha (he ▸ h.1)
  exact ⟨by rw [Function.update_of_ne hne]; exact h.1,h.2⟩

/-- The caller `a` moves on while it has no entry on the queue. -/
theorem update_off (h : Entries calls q) (ha : a ∉ tasks q) :
    Entries (Function.update calls a v) q := by
  refine ⟨h.1,fun w hw => ?_⟩
  have hne : w.task ≠ a := fun he => ha (he ▸ List.mem_map.mpr ⟨w,hw,rfl⟩)
  rw [Function.update_of_ne hne]
  exact h.2 w hw

/-- The caller `a` moves on and has an entry with its new flag. -/
theorem update_enqueue {b : Bool} (h : Entries calls q)
    (ha : a ∈ tasks q → entryFlag (calls a) = some b) (hv : entryFlag v = some b) :
    Entries (Function.update calls a v) (enqueue ⟨a,b⟩ q) := by
  refine ⟨tasks_enqueue_nodup h.1,fun w hw => ?_⟩
  rcases mem_enqueue hw with hw | rfl
  · by_cases hwa : w.task = a
    · have hm : a ∈ tasks q := hwa ▸ List.mem_map.mpr ⟨w,hw,rfl⟩
      have hb : some b = some w.exclusive := by rw [← ha hm,← hwa,h.2 w hw]
      rw [hwa,Function.update_self,hv,hb]
    · rw [Function.update_of_ne hwa]
      exact h.2 w hw
  · rw [Function.update_self,hv]

end Entries

/-- The caller is between its `atomic_inc` and its `atomic_dec`. -/
def Waits (c : Option (CallState μ)) : Prop := entryFlag c = some true

instance (c : Option (CallState μ)) : Decidable (Waits c) :=
  inferInstanceAs (Decidable (entryFlag c = some true))

structure WaitInvariant (s : MailboxSystem α μ) : Prop where
  entries : Entries s.calls s.mailbox.modifyQueue
  waiting : Counts s.mailbox.waiting s.calls Waits

variable [DecidableEq α]

omit [DecidableEq α] in
theorem waitInvariant_create (owner : Pid) (signalPending : α → Bool) :
    WaitInvariant (create owner signalPending : MailboxSystem α μ) where
  entries := ⟨List.nodup_nil,by intro w hw; cases hw⟩
  waiting := Counts.initial (by simp [create,Waits])

/-- The wait invariant through a section, from its effect on the queue. -/
theorem WaitInvariant.queueStep {s : MailboxSystem α μ} (h : WaitInvariant s) {a : α}
    {m' : Mailbox α μ} {v : Option (CallState μ)}
    (hq : Mailbox.QueueStep a s.mailbox (entryFlag (s.calls a)) m' (entryFlag v)) :
    WaitInvariant { s with mailbox := m', calls := Function.update s.calls a v } := by
  obtain ⟨he,hc⟩ := h
  generalize hf : entryFlag (s.calls a) = flag at hq
  generalize hg : entryFlag v = flag' at hq
  cases hq with
  | idle queue waiting =>
    have hoff := he.notMem hf
    exact ⟨by rw [queue]; exact he.update_off hoff,
      by rw [waiting]; exact hc.unchanged (by simp [Waits,hf,hg])⟩
  | wake q sub queue waiting =>
    have hoff := he.notMem hf
    have hsub : (wakeUp q).Sublist s.mailbox.modifyQueue := (wakeUp_sublist q).trans sub
    exact ⟨by rw [queue]; exact (he.update_off hoff).sublist hsub,
      by rw [waiting]; exact hc.unchanged (by simp [Waits,hf,hg])⟩
  | leave q sub off queue waiting =>
    refine ⟨?_,by rw [waiting]; exact hc.leave (by simp [Waits,hf]) (by simp [Waits,hg])⟩
    rw [queue]
    exact ((he.sublist sub).update_off off).sublist (wakeUp_sublist q)
  | enter =>
    refine ⟨?_,hc.enter (by simp [Waits,hf]) (by simp [Waits,hg])⟩
    exact he.update_enqueue (fun hm => absurd hm (he.notMem hf)) hg
  | again =>
    exact ⟨he.update_enqueue (fun _ => hf) hg,hc.unchanged (by simp [Waits,hf,hg])⟩
  | join flush =>
    refine ⟨he.update_enqueue (fun hm => ?_) hg,hc.unchanged ?_⟩
    · rcases flush with rfl | rfl
      · exact absurd hm (he.notMem hf)
      · exact hf
    · rcases flush with rfl | rfl <;> simp [Waits,hf,hg]
  | drop flush =>
    refine ⟨(he.sublist (dequeue_sublist _ _)).update_off (by simp),hc.unchanged ?_⟩
    rcases flush with rfl | rfl <;> simp [Waits,hf,hg]

theorem WaitInvariant.stepped {s s' : MailboxSystem α μ} {act : Action α μ}
    (h : WaitInvariant s) (hs : Stepped s act s') : WaitInvariant s' := by
  cases hs with
  | invoke idle =>
    refine ⟨h.entries.update_off (h.entries.notMem (by rw [idle]; rfl)),?_⟩
    exact h.waiting.unchanged (by simp [Waits,idle])
  | signal => exact ⟨h.entries,h.waiting⟩
  | handle => exact ⟨h.entries,h.waiting⟩
  | run called _ _ locked =>
    apply h.queueStep
    rw [called]
    exact locked.queueStep

theorem waitInvariant_of_run {owner : Pid} {sig : α → Bool}
    {tr : List (MailboxSystem α μ × Action α μ)} {s : MailboxSystem α μ}
    (h : Run step (create owner sig) tr s) : WaitInvariant s :=
  h.invariant (waitInvariant_create owner sig) fun _ _ _ hs ht => hs.stepped (step_stepped ht)

end MailboxSystem
end ProcessMessagePassing
