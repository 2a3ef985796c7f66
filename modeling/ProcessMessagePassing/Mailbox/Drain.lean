import ProcessMessagePassing.Mailbox.Contents
import ProcessMessagePassing.Mailbox.Stopped

/-! What can still happen to a stopped mailbox. Adds are refused under the lock, receives take
the front or report the stop, and the flush leaves the list empty for good. -/
namespace ProcessMessagePassing
open Concurrency Concurrency.WaitQueue

variable {α μ : Type} [DecidableEq α]

namespace Mailbox
variable {a : α} {signalPending : Bool} {m m' : Mailbox α μ} {cs : CallState μ}
  {p : Progress μ}

theorem Locked.drains (h : Locked a signalPending m cs m' p) (stopped : m.stopped ≠ 0) :
    m'.messages <:+ m.messages := by
  cases h with
  | addNow running | addWoken running => exact absurd running stopped
  | removeNow | removeWoken => exact List.tail_suffix _
  | flushNow => exact List.nil_suffix
  | unclaimNow => exact unclaim_messages m ▸ List.suffix_refl _
  | _ => exact List.suffix_refl _

theorem Locked.flushed_messages {destroyed : List μ}
    (h : Locked a signalPending m cs m' (.flushed destroyed)) : m'.messages = [] := by
  cases h with
  | flushNow => rfl

theorem Locked.add_refused (h : Locked a signalPending m cs m' p) (stopped : m.stopped ≠ 0)
    (adds : cs.Adds) : p = .returned (.code .mailboxStopped) := by
  rcases adds with ⟨x,block,head,rfl⟩ | ⟨x,head,rfl⟩
  · cases h with
    | addStopped => rfl
    | addFull running | addNow running | addSleep running | addSignalled running =>
      exact absurd running stopped
    | flushSleep h | flushNow h => rcases h with h | h <;> cases h
    | unclaimedSleep h | unclaimedNow h => rcases h with h | h <;> cases h
  · cases h with
    | addWokenStopped => rfl
    | addWoken running | addInterrupted running | addAgain running =>
      exact absurd running stopped
    | flushSleep h | flushNow h => rcases h with h | h <;> cases h
    | unclaimedSleep h | unclaimedNow h => rcases h with h | h <;> cases h

/-- What a receive reports on a stopped mailbox with these messages. -/
def drained : List μ → Ret μ
  | [] => .code .mailboxStopped
  | x :: _ => .message (.node x)

omit [DecidableEq α] in
lemma drained_of_count {m : Mailbox α μ} (exact : m.Exact) (some : m.messageCount ≠ 0) :
    Ret.message (listEntry m.messages) = drained m.messages := by
  obtain ⟨x,rest,hm,-⟩ := exists_front exact some
  rw [hm]
  rfl

omit [DecidableEq α] in
lemma drained_of_empty {m : Mailbox α μ} (exact : m.Exact) (empty : m.messageCount = 0) :
    m.messages = [] := by
  unfold Exact at exact
  exact List.length_eq_zero_iff.mp (by omega)

/-- A receive on a stopped mailbox whose count is right takes the first message, or reports the
stop when there is none. It does not sleep. -/
theorem Locked.remove_drains (h : Locked a signalPending m cs m' p) (stopped : m.stopped ≠ 0)
    (exact : m.Exact) (removes : cs.Removes) :
    p = .returned (drained m.messages) ∧ m'.messages = m.messages.tail := by
  rcases removes with ⟨block,rfl⟩ | rfl
  · cases h with
    | removeStopped _ empty => rw [drained_of_empty exact empty]; exact ⟨rfl,rfl⟩
    | removeNow some => exact ⟨congrArg _ (drained_of_count exact some),rfl⟩
    | removeEmpty running | removeSleep running | removeSignalled running =>
      exact absurd running stopped
    | flushSleep h | flushNow h => rcases h with h | h <;> cases h
    | unclaimedSleep h | unclaimedNow h => rcases h with h | h <;> cases h
  · cases h with
    | removeWokenStopped _ empty =>
      have hnil := drained_of_empty exact empty
      refine ⟨by rw [hnil]; rfl,?_⟩
      change m.messages = m.messages.tail
      rw [hnil]
      rfl
    | removeWoken some => exact ⟨congrArg _ (drained_of_count exact some),rfl⟩
    | removeInterrupted running | removeAgain running => exact absurd running stopped
    | flushSleep h | flushNow h => rcases h with h | h <;> cases h
    | unclaimedSleep h | unclaimedNow h => rcases h with h | h <;> cases h

end Mailbox

namespace MailboxSystem

/-- The caller is past the flush loop of its `mailbox_destroy`. -/
def Flushed (c : Option (CallState μ)) : Prop :=
  c = some .awaitUnclaimed ∨ c = some .awaitingUnclaimed ∨ c = some .free

/-- Once somebody has flushed, the list is empty. -/
structure FlushInvariant (s : MailboxSystem α μ) : Prop extends StopInvariant s where
  flushed : ∀ a, Flushed (s.calls a) → s.mailbox.messages = []
  freed : s.mailbox.frees ≠ 0 → s.mailbox.stopped ≠ 0 ∧ s.mailbox.messages = []

omit [DecidableEq α] in
lemma Flushed.destroying {c : Option (CallState μ)} (h : Flushed c) : Destroying c := by
  rcases h with rfl | rfl | rfl <;> simp [Destroying]

omit [DecidableEq α] in
theorem flushInvariant_create (owner : Pid) (signalPending : α → Bool) :
    FlushInvariant (create owner signalPending : MailboxSystem α μ) where
  toStopInvariant := stopInvariant_create owner signalPending
  flushed := by simp [create,Flushed]
  freed := by simp [create,Mailbox.create]

/-- The list stays empty once it is empty on a stopped mailbox. -/
lemma empty_of_suffix {l l' : List μ} (h : l' <:+ l) (empty : l = []) : l' = [] :=
  List.suffix_nil.mp (empty ▸ h)

omit [DecidableEq α] in
lemma not_flushed_start (c : Call μ) : ¬ Flushed (some c.start) := fun h =>
  not_destroying_start c h.destroying

/-- A section that leaves its caller past the flush loop is the flush, or its caller was there
before. -/
lemma flushed_of_callState {a : α} {sig : Bool} {m m' : Mailbox α μ} {cs : CallState μ}
    {p : Progress μ} (h : Mailbox.Locked a sig m cs m' p) (hp : Flushed p.callState) :
    (∃ destroyed, p = .flushed destroyed) ∨ Flushed (some cs) := by
  cases h with
  | flushNow => exact .inl ⟨_,rfl⟩
  | unclaimedSleep h | unclaimedNow h => right; rcases h with rfl | rfl <;> simp [Flushed]
  | _ => simp [Flushed,Progress.callState] at hp

theorem FlushInvariant.stepped {s s' : MailboxSystem α μ} {act : Action α μ}
    (h : FlushInvariant s) (hs : Stepped s act s') : FlushInvariant s' := by
  refine ⟨h.toStopInvariant.stepped hs,?_,?_⟩
  · cases hs with
    | @invoke a c idle =>
      refine (Function.forall_update_iff _
        fun _ c => Flushed c → s.mailbox.messages = []).mpr ⟨fun hf => ?_,fun b _ => h.flushed b⟩
      exact absurd hf (not_flushed_start c)
    | signal | handle => exact h.flushed
    | @run a cs m p called _ _ locked =>
      refine (Function.forall_update_iff _
        fun _ c => Flushed c → m.messages = []).mpr ⟨fun hf => ?_,fun b _ hf => ?_⟩
      · rcases flushed_of_callState locked hf with ⟨destroyed,rfl⟩ | hc
        · exact locked.flushed_messages
        · rw [← called] at hc
          exact empty_of_suffix (locked.drains (h.destroying a hc.destroying)) (h.flushed a hc)
      · exact empty_of_suffix (locked.drains (h.destroying b hf.destroying)) (h.flushed b hf)
  · intro hfree
    cases hs with
    | invoke | signal | handle => exact h.freed hfree
    | @run a cs m p called runnable ended locked =>
      by_cases hold : s.mailbox.frees = 0
      · -- this section is the free itself
        cases locked with
        | freeNow =>
          have hd : Destroying (s.calls a) := by simp [called,Destroying]
          exact ⟨h.destroying a hd,h.flushed a (by simp [called,Flushed])⟩
        | unclaimNow => exact absurd ((Mailbox.unclaim_frees _).trans hold) hfree
        | _ => exact absurd hold hfree
      · obtain ⟨hst,hnil⟩ := h.freed hold
        exact ⟨h.stopped_stepped (.run called runnable ended locked) hst,
          empty_of_suffix (locked.drains hst) hnil⟩

variable {owner : Pid} {sig : α → Bool} {tr tr' : List (MailboxSystem α μ × Action α μ)}
  {s s' : MailboxSystem α μ}

theorem flushInvariant_of_run (h : Run step (create owner sig) tr s) : FlushInvariant s :=
  h.invariant (flushInvariant_create owner sig) fun _ _ _ hs ht => hs.stepped (step_stepped ht)

theorem messages_suffix_of_run (h : StopInvariant s) (stopped : s.mailbox.stopped ≠ 0)
    (run : Run step s tr' s') : s'.mailbox.messages <:+ s.mailbox.messages := by
  induction run with
  | refl => exact List.suffix_refl _
  | @snoc tr t act t' prior taken ih =>
    have hst := stopped_of_run h stopped prior
    refine List.IsSuffix.trans ?_ ih
    cases step_stepped taken with
    | invoke | signal | handle => exact List.suffix_refl _
    | run _ _ _ locked => exact locked.drains hst

/-- The section that an action runs belongs to a caller in such a state. -/
def Runs (s : MailboxSystem α μ) (act : Action α μ) (p : CallState μ → Prop) : Prop :=
  ∃ a cs, act = .run a ∧ s.calls a = some cs ∧ p cs

/-- From any state in which the mailbox is stopped on, it only drains. -/
theorem stopped_mailbox_only_drains (reached : Run step (create owner sig) tr s)
    (stopped : s.mailbox.stopped ≠ 0) (run : Run step s tr' s') :
    s'.mailbox.stopped ≠ 0 ∧
    (∀ x ∈ tr', Runs x.1 x.2 CallState.Adds →
      outcome x.1 x.2 = some (.returned (.code .mailboxStopped))) ∧
    s'.mailbox.messages <:+ s.mailbox.messages ∧
    (s'.mailbox.frees ≠ 0 → s'.mailbox.messages = []) ∧
    ((∀ x ∈ tr ++ tr', flushes x.1 x.2 = false) →
      ∀ x ∈ tr', Runs x.1 x.2 CallState.Removes →
        outcome x.1 x.2 = some (.returned (Mailbox.drained x.1.mailbox.messages)) ∧
        ∃ t, step x.1 x.2 = some t ∧ t.mailbox.messages = x.1.mailbox.messages.tail) := by
  have hinv := flushInvariant_of_run reached
  have hinv' := flushInvariant_of_run (reached.append run)
  refine ⟨stopped_of_run hinv.toStopInvariant stopped run,?_,
    messages_suffix_of_run hinv.toStopInvariant stopped run,fun hf => (hinv'.freed hf).2,?_⟩
  · rintro x hx ⟨a,cs,hact,hcs,hadds⟩
    obtain ⟨before,after,t,-,hbefore,htaken,-⟩ := run.split hx
    have hst := stopped_of_run hinv.toStopInvariant stopped hbefore
    obtain ⟨u,act⟩ := x
    cases hact
    cases step_stepped htaken with
    | run called _ ended locked =>
      obtain rfl := Option.some.inj (called.symm.trans hcs)
      rw [ended,locked.add_refused hst hadds]
  · rintro unflushed x hx ⟨a,cs,hact,hcs,hremoves⟩
    obtain ⟨before,after,t,rfl,hbefore,htaken,-⟩ := run.split hx
    have hst := stopped_of_run hinv.toStopInvariant stopped hbefore
    have hexact := exact_of_run (reached.append hbefore) fun y hy => unflushed y (by
      rw [← List.append_assoc]; exact List.mem_append_left _ hy)
    obtain ⟨u,act⟩ := x
    cases hact
    refine ⟨?_,t,htaken,?_⟩
    · cases step_stepped htaken with
      | run called _ ended locked =>
        obtain rfl := Option.some.inj (called.symm.trans hcs)
        rw [ended,(locked.remove_drains hst hexact hremoves).1]
    · cases step_stepped htaken with
      | run called _ ended locked =>
        obtain rfl := Option.some.inj (called.symm.trans hcs)
        exact (locked.remove_drains hst hexact hremoves).2

/-- Caller 0 adds two messages and stops the mailbox; its next add is refused, and caller 1
takes the first message. -/
theorem stopped_mailbox_only_drains_here :
    ∃ tr s tr' s', Run step (create 1 fun _ => false : MailboxSystem (Fin 2) ℕ) tr s ∧
      Run step s tr' s' ∧ s.mailbox.messages = [7,8] ∧ s.mailbox.stopped ≠ 0 ∧
      s'.mailbox.stopped ≠ 0 ∧ s'.mailbox.messages <:+ s.mailbox.messages ∧
      s'.mailbox.messages = [8] := by
  obtain ⟨tr,s,hrun,htest⟩ := exists_run_of_execute step
    (create 1 fun _ => false : MailboxSystem (Fin 2) ℕ)
    [.invoke 0 (.add 7 false false),.run 0,.invoke 0 (.add 8 false false),.run 0,
      .invoke 0 .stop,.run 0]
    (fun _ s => decide (s.mailbox.messages = [7,8] ∧ s.mailbox.stopped ≠ 0) &&
      (execute step s [.invoke 0 (.add 9 true false),.run 0,.invoke 1 (.remove true),.run 1]).any
        fun r : _ × MailboxSystem (Fin 2) ℕ => decide (r.2.mailbox.messages = [8])) (by decide)
  simp only [Bool.and_eq_true,decide_eq_true_eq] at htest
  obtain ⟨⟨hmessages,stopped⟩,hrest⟩ := htest
  obtain ⟨⟨tr',s'⟩,hexecute,hleft⟩ := (Option.any_eq_true _ _).mp hrest
  obtain ⟨hst,-,hsuffix,-,-⟩ :=
    stopped_mailbox_only_drains hrun stopped (run_of_execute hexecute)
  exact ⟨tr,s,tr',s',hrun,run_of_execute hexecute,hmessages,stopped,hst,hsuffix,of_decide_eq_true hleft⟩

end MailboxSystem
end ProcessMessagePassing
