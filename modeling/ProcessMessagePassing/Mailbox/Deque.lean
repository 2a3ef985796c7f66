import ProcessMessagePassing.Concurrency.BoundedDeque
import ProcessMessagePassing.Concurrency.Refinement
import ProcessMessagePassing.Mailbox.Drain

/-! The mailbox as an atomic bounded double-ended queue. Until the flush, a call takes its one
atomic step in the section it returns zero from, and a refused call leaves the queue alone. -/
namespace ProcessMessagePassing
open Concurrency Concurrency.BoundedDeque

variable {α μ : Type}

/-- The queue operation of a call; claims are not operations of the queue. -/
def Call.op : Call μ → Option (Op μ)
  | .add x block head => some (.push x head block)
  | .remove block => some (.pop block)
  | .stop => some .close
  | .exiting => some .close
  | .destroy => some .close
  | .claim => none
  | .unclaim => none

/-- The queue's view of a caller. `mailbox_destroy` has closed the queue once it is past its
first section. -/
def dequeStatus : Option (CallState μ) → Status μ
  | none => .idle
  | some (.addMessage x block head) => .pending (.push x head block)
  | some (.addWaiting x head) => .pending (.push x head true)
  | some (.removeMessage block) => .pending (.pop block)
  | some .removeWaiting => .pending (.pop true)
  | some (.stop _) => .pending .close
  | some .destroy => .pending .close
  | some .claim => .idle
  | some .unclaim => .idle
  | some _ => .done none

/-- What a queue operation reports through its return value and its message pointer. -/
def dequeResult : Ret μ → Except Refusal (Option μ)
  | .message (.node x) => .ok (some x)
  | .message .head => .ok none
  | .code .ok => .ok none
  | .code .mailboxFull => .error .full
  | .code .mailboxEmpty => .error .empty
  | .code .mailboxStopped => .error .closed
  | .code _ => .error .interrupted

namespace MailboxSystem

/-- The queue that a mailbox and its callers stand for. -/
def deque (s : MailboxSystem α μ) : BoundedDeque.State α μ where
  contents := s.mailbox.messages
  closed := decide (s.mailbox.stopped ≠ 0)
  status := fun a => dequeStatus (s.calls a)
  signalled := s.signalPending

variable [DecidableEq α]

omit [DecidableEq α] in
/-- The return that a section shows. -/
def shown (a : α) : Status μ → Progress μ → List (Event α μ)
  | .pending _,.returned r => [.ret a (dequeResult r)]
  | _,_ => []

/-- What a step shows of the queue: an invocation, a return, or a signal. -/
def observe (s : MailboxSystem α μ) : Action α μ → List (Event α μ)
  | .invoke a c => (c.op.map (Event.call a)).toList
  | .signal a => [.signal a]
  | .handle a => [.handle a]
  | .run a => ((s.outcome (.run a)).map (shown a (dequeStatus (s.calls a)))).getD []

/-- What the refinement needs to know of a mailbox before its flush. -/
structure DequeInvariant (s : MailboxSystem α μ) : Prop extends StopInvariant s where
  unflushed : ∀ a, ¬ Flushed (s.calls a)
  exact : s.mailbox.Exact
  bounded : s.mailbox.Bounded
  max : s.mailbox.messageMax = 32

omit [DecidableEq α] in
theorem dequeInvariant_create (owner : Pid) (sig : α → Bool) :
    DequeInvariant (create owner sig : MailboxSystem α μ) where
  toStopInvariant := stopInvariant_create owner sig
  unflushed := by simp [create,Flushed]
  exact := Mailbox.exact_create owner
  bounded := Mailbox.bounded_create owner
  max := rfl

theorem DequeInvariant.stepped {s s' : MailboxSystem α μ} {act : Action α μ}
    (h : DequeInvariant s) (unflushed : flushes s act = false) (hs : Stepped s act s') :
    DequeInvariant s' := by
  have hstop := h.toStopInvariant.stepped hs
  cases hs with
  | @invoke a c =>
    refine ⟨hstop,?_,h.exact,h.bounded,h.max⟩
    exact (Function.forall_update_iff _ fun _ c => ¬ Flushed c).mpr
      ⟨not_flushed_start c,fun b _ => h.unflushed b⟩
  | signal | handle => exact ⟨hstop,h.unflushed,h.exact,h.bounded,h.max⟩
  | @run a cs m p called _ ended locked =>
    have hp : ∀ destroyed, p ≠ .flushed destroyed := by
      rintro destroyed rfl
      rw [flushes,ended] at unflushed
      cases unflushed
    refine ⟨hstop,?_,locked.exact h.exact fun destroyed he => absurd he (hp destroyed),
      locked.bounded h.bounded,locked.messageMax_eq.trans h.max⟩
    refine (Function.forall_update_iff _ fun _ c => ¬ Flushed c).mpr
      ⟨fun hf => ?_,fun b _ => h.unflushed b⟩
    rcases flushed_of_callState locked hf with ⟨destroyed,he⟩ | hc
    · exact hp destroyed he
    · exact h.unflushed a (called ▸ hc)

omit [DecidableEq α] in
lemma DequeInvariant.room {s : MailboxSystem α μ} (h : DequeInvariant s)
    (room : s.mailbox.messageCount < s.mailbox.messageMax) : s.mailbox.messages.length < 32 := by
  have hexact := h.exact
  have hmax := h.max
  unfold Mailbox.Exact at hexact
  omega

omit [DecidableEq α] in
lemma DequeInvariant.full {s : MailboxSystem α μ} (h : DequeInvariant s)
    (full : s.mailbox.messageMax ≤ s.mailbox.messageCount) : s.mailbox.messages.length = 32 := by
  have hexact := h.exact
  have hbound := h.bounded.2
  have hmax := h.max
  unfold Mailbox.Exact at hexact
  omega

omit [DecidableEq α] in
lemma DequeInvariant.empty {s : MailboxSystem α μ} (h : DequeInvariant s)
    (empty : s.mailbox.messageCount = 0) : s.mailbox.messages = [] := by
  have hexact := h.exact
  unfold Mailbox.Exact at hexact
  exact List.length_eq_zero_iff.mp (by omega)

omit [DecidableEq α] in
/-- An add to a running mailbox with room is a push at its end of the queue. -/
lemma DequeInvariant.commit_push {s : MailboxSystem α μ} (h : DequeInvariant s)
    (running : s.mailbox.stopped = 0) (room : s.mailbox.messageCount < s.mailbox.messageMax) {x : μ}
    {block head : Bool} : Commit 32 (.push x head block) s.mailbox.messages
      (decide (s.mailbox.stopped ≠ 0)) (s.mailbox.insertMessage x head).messages
      (decide ((s.mailbox.insertMessage x head).stopped ≠ 0)) none := by
  change Commit 32 _ _ (decide (s.mailbox.stopped ≠ 0)) _ (decide (s.mailbox.stopped ≠ 0)) _
  rw [running]
  cases head with
  | false => exact .pushBack (h.room room)
  | true => exact .pushFront (h.room room)

/-- Updating the call of one caller updates its status. -/
lemma dequeStatus_update (calls : α → Option (CallState μ)) (a : α)
    (v : Option (CallState μ)) :
    (fun b => dequeStatus (Function.update calls a v b)) =
      Function.update (fun b => dequeStatus (calls b)) a (dequeStatus v) := by
  funext b
  by_cases hb : b = a
  · subst b; simp
  · simp [hb]

/-- A section that changes neither the messages nor the status of its caller. -/
lemma deque_silent {s : MailboxSystem α μ} {a : α} {m' : Mailbox α μ}
    {v : Option (CallState μ)} (messages : m'.messages = s.mailbox.messages)
    (stopped : m'.stopped = s.mailbox.stopped)
    (status : dequeStatus (s.calls a) = dequeStatus v) :
    Steps (BoundedDeque.Step 32) (deque s) []
      (deque { s with mailbox := m', calls := Function.update s.calls a v }) := by
  have h : deque { s with mailbox := m', calls := Function.update s.calls a v } = deque s := by
    unfold deque
    rw [messages,stopped,dequeStatus_update,← status,Function.update_eq_self_iff.mpr rfl]
  rw [h]
  exact Steps.refl

/-- A section that returns zero after the atomic step of its operation. -/
lemma deque_commits {s : MailboxSystem α μ} {a : α} {m' : Mailbox α μ} {op : Op μ}
    {taken : Option μ} (pending : dequeStatus (s.calls a) = .pending op)
    (atomic : Commit 32 op s.mailbox.messages (decide (s.mailbox.stopped ≠ 0)) m'.messages
      (decide (m'.stopped ≠ 0)) taken) :
    Steps (BoundedDeque.Step 32) (deque s) [.commit a,.ret a (.ok taken)]
      (deque { s with mailbox := m', calls := Function.update s.calls a none }) := by
  refine Steps.two (Step.commit (t := deque s) pending atomic) ?_
  have hafter : deque { s with mailbox := m', calls := Function.update s.calls a none } =
      { deque s with
        contents := m'.messages
        closed := decide (m'.stopped ≠ 0)
        status := Function.update (Function.update (deque s).status a (.done taken)) a .idle } := by
    unfold deque
    rw [dequeStatus_update]
    simp [dequeStatus]
  rw [hafter]
  apply Step.ret
  simp

/-- A section that refuses the operation of its caller. -/
lemma deque_refuses {s : MailboxSystem α μ} {a : α} {m' : Mailbox α μ} {op : Op μ}
    {reason : Refusal} (pending : dequeStatus (s.calls a) = .pending op)
    (messages : m'.messages = s.mailbox.messages) (stopped : m'.stopped = s.mailbox.stopped)
    (refused : Refused 32 op s.mailbox.messages (decide (s.mailbox.stopped ≠ 0))
      (s.signalPending a) reason) :
    Steps (BoundedDeque.Step 32) (deque s) [.ret a (.error reason)]
      (deque { s with mailbox := m', calls := Function.update s.calls a none }) := by
  have hret := Step.refuse (t := deque s) pending refused
  refine Steps.one ?_
  convert hret using 1
  unfold deque
  rw [dequeStatus_update,messages,stopped]
  rfl

/-- Every section before the flush is a path of the queue that shows what the section shows. -/
theorem deque_section {s : MailboxSystem α μ} {a : α} {cs : CallState μ} {m' : Mailbox α μ}
    {p : Progress μ} (h : DequeInvariant s) (called : s.calls a = some cs)
    (unflushed : ∀ destroyed, p ≠ .flushed destroyed)
    (locked : Mailbox.Locked a (s.signalPending a) s.mailbox cs m' p) :
    ∃ es, Steps (BoundedDeque.Step 32) (deque s) es
        (deque { s with mailbox := m', calls := Function.update s.calls a p.callState }) ∧
      es.filter Event.visible = shown a (dequeStatus (some cs)) p := by
  have hstatus : dequeStatus (s.calls a) = dequeStatus (some cs) := by rw [called]
  cases locked with
  | addStopped stopped | addWokenStopped stopped =>
    exact ⟨_,deque_refuses hstatus rfl rfl (by rw [decide_eq_true stopped]; exact .pushClosed),rfl⟩
  | addFull running full =>
    refine ⟨_,deque_refuses hstatus rfl rfl ?_,rfl⟩
    rw [running]
    exact .pushFull (h.full full)
  | addSignalled running full signalled | addInterrupted running full signalled =>
    refine ⟨_,deque_refuses hstatus rfl rfl ?_,rfl⟩
    rw [running,signalled]
    exact .pushInterrupted (h.full full)
  | addNow running room | addWoken running room =>
    exact ⟨_,deque_commits hstatus (h.commit_push running room),rfl⟩
  | removeStopped stopped empty | removeWokenStopped stopped empty =>
    refine ⟨_,deque_refuses hstatus rfl rfl ?_,rfl⟩
    rw [decide_eq_true stopped,h.empty empty]
    exact .popClosed
  | removeEmpty running empty =>
    refine ⟨_,deque_refuses hstatus rfl rfl ?_,rfl⟩
    rw [running,h.empty empty]
    exact .popEmpty
  | removeSignalled running empty signalled | removeInterrupted running empty signalled =>
    refine ⟨_,deque_refuses hstatus rfl rfl ?_,rfl⟩
    rw [running,signalled,h.empty empty]
    exact .popInterrupted
  | removeNow some | removeWoken some =>
    obtain ⟨x,rest,hm,-⟩ := Mailbox.exists_front h.exact some
    have hpop : ∀ block, Commit 32 (.pop block) s.mailbox.messages
        (decide (s.mailbox.stopped ≠ 0)) s.mailbox.messages.tail
        (decide (s.mailbox.stopped ≠ 0)) (Option.some x) := by
      intro block
      rw [hm]
      exact .pop
    refine ⟨_,deque_commits hstatus (hpop _),?_⟩
    rw [hm]
    rfl
  | @stopNow status =>
    have hne : status ≠ 0 := h.status a _ status called rfl
    have hclose : Commit 32 .close s.mailbox.messages (decide (s.mailbox.stopped ≠ 0))
        s.mailbox.messages (decide (status ≠ 0)) none := by
      rw [decide_eq_true hne]
      exact .close
    exact ⟨_,deque_commits hstatus hclose,rfl⟩
  | destroyStop =>
    refine ⟨[.commit a],Steps.one ?_,rfl⟩
    have hclose : Commit 32 .close s.mailbox.messages (decide (s.mailbox.stopped ≠ 0))
        s.mailbox.messages true none := .close
    have hcommit := Step.commit (t := deque s) hstatus hclose
    convert hcommit using 1
    unfold deque
    rw [dequeStatus_update]
    rfl
  | addSleep | addAgain | removeSleep | removeAgain | claimNow =>
    exact ⟨[],deque_silent rfl rfl hstatus,rfl⟩
  | unclaimNow =>
    exact ⟨[],deque_silent (Mailbox.unclaim_messages _) (Mailbox.unclaim_stopped _) hstatus,rfl⟩
  | flushSleep flushing =>
    refine ⟨[],deque_silent rfl rfl (hstatus.trans ?_),?_⟩ <;> rcases flushing with rfl | rfl <;> rfl
  | flushNow => exact absurd rfl (unflushed _)
  | unclaimedSleep awaiting | unclaimedNow awaiting =>
    refine absurd ?_ (h.unflushed a)
    rcases awaiting with rfl | rfl <;> simp [Flushed,called]
  | freeNow => exact absurd (by simp [Flushed,called]) (h.unflushed a)

theorem deque_stepped {s s' : MailboxSystem α μ} {act : Action α μ} (h : DequeInvariant s)
    (unflushed : flushes s act = false) (hs : Stepped s act s') :
    ∃ es, Steps (BoundedDeque.Step 32) (deque s) es (deque s') ∧
      es.filter Event.visible = observe s act := by
  cases hs with
  | @invoke a c idle =>
    have hstatus : dequeStatus (s.calls a) = .idle := by rw [idle]; rfl
    cases hop : c.op with
    | none =>
      refine ⟨[],deque_silent rfl rfl (hstatus.trans ?_),by simp [observe,hop]⟩
      cases c <;> first | rfl | cases hop
    | some op =>
      refine ⟨[.call a op],Steps.one ?_,by simp [observe,hop,Event.visible]⟩
      have hcall : BoundedDeque.Step 32 (deque s) (.call a op) _ := .call hstatus
      convert hcall using 1
      unfold deque
      rw [dequeStatus_update]
      cases c <;> cases hop <;> rfl
  | signal => exact ⟨_,Steps.one .signal,rfl⟩
  | handle => exact ⟨_,Steps.one .handle,rfl⟩
  | @run a cs m p called _ ended locked =>
    have hp : ∀ destroyed, p ≠ .flushed destroyed := by
      rintro destroyed rfl
      rw [flushes,ended] at unflushed
      cases unflushed
    obtain ⟨es,hpath,hshown⟩ := deque_section h called hp locked
    refine ⟨es,hpath,hshown.trans ?_⟩
    simp [observe,ended,called]

/-- What a refusal says of the mailbox it was decided on. -/
def RefusalHolds (s : MailboxSystem α μ) (act : Action α μ) : Prop :=
  match s.outcome act with
  | some (.returned (.code .mailboxFull)) =>
      s.mailbox.stopped = 0 ∧ s.mailbox.messages.length = s.mailbox.messageMax
  | some (.returned (.code .mailboxEmpty)) => s.mailbox.stopped = 0 ∧ s.mailbox.messages = []
  | some (.returned (.code .mailboxStopped)) =>
      s.mailbox.stopped ≠ 0 ∧ (Runs s act CallState.Removes → s.mailbox.messages = [])
  | _ => True

theorem DequeInvariant.refusalHolds {s s' : MailboxSystem α μ} {act : Action α μ}
    (h : DequeInvariant s) (hs : Stepped s act s') : RefusalHolds s act := by
  cases hs with
  | invoke | signal | handle => trivial
  | @run a cs m p called _ ended locked =>
    unfold RefusalHolds
    rw [ended]
    cases locked with
    | addFull running full =>
      refine ⟨running,?_⟩
      rw [h.full full,h.max]
      rfl
    | removeEmpty running empty => exact ⟨running,h.empty empty⟩
    | removeStopped stopped empty | removeWokenStopped stopped empty =>
      exact ⟨stopped,fun _ => h.empty empty⟩
    | addStopped stopped | addWokenStopped stopped =>
      refine ⟨stopped,?_⟩
      rintro ⟨b,cs,hact,hcs,hremoves⟩
      cases hact
      obtain rfl := Option.some.inj (called.symm.trans hcs)
      rcases hremoves with ⟨block,he⟩ | he <;> cases he
    | _ => trivial

variable {owner : Pid} {sig : α → Bool} {tr : List (MailboxSystem α μ × Action α μ)}
  {s : MailboxSystem α μ}

theorem dequeInvariant_of_run (h : Run step (create owner sig) tr s)
    (unflushed : ∀ x ∈ tr, flushes x.1 x.2 = false) : DequeInvariant s :=
  h.invariant_of_guard (dequeInvariant_create owner sig)
    (fun _ _ _ hs hf ht => hs.stepped hf (step_stepped ht)) unflushed

/-- Until its flush the mailbox refines the atomic bounded queue: every run has a path of the
queue with the same calls, returns and signals. -/
theorem mailbox_refines_deque (h : Run step (create owner sig) tr s)
    (unflushed : ∀ x ∈ tr, flushes x.1 x.2 = false) :
    (s.mailbox.messageCount = s.mailbox.messages.length ∧
      0 ≤ s.mailbox.messageCount ∧ s.mailbox.messageCount ≤ s.mailbox.messageMax) ∧
    (∀ x ∈ tr, RefusalHolds x.1 x.2) ∧
    ∃ events, Steps (BoundedDeque.Step 32) (BoundedDeque.initial sig) events (deque s) ∧
      events.filter Event.visible = tr.flatMap fun x => observe x.1 x.2 := by
  have hinv := dequeInvariant_of_run h unflushed
  refine ⟨⟨hinv.exact,hinv.bounded⟩,fun x hx => ?_,?_⟩
  · obtain ⟨before,after,t,rfl,hbefore,htaken,-⟩ := h.split hx
    have hbefore := dequeInvariant_of_run hbefore fun y hy =>
      unflushed y (List.mem_append_left _ hy)
    exact hbefore.refusalHolds (step_stepped htaken)
  · exact Run.refines deque observe Event.visible (dequeInvariant_create owner sig)
      (fun _ _ _ hs hf ht => hs.stepped hf (step_stepped ht))
      (fun _ _ _ hs hf ht => deque_stepped hs hf (step_stepped ht)) h unflushed

/-- A receiver sleeps on the empty mailbox and gets the message that a sender brings. -/
theorem mailbox_refines_deque_handover :
    ∃ tr s, Run step (create 1 fun _ => false : MailboxSystem (Fin 2) ℕ) tr s ∧
      s.mailbox.messageCount = s.mailbox.messages.length ∧
      ∃ events, Steps (BoundedDeque.Step 32) (BoundedDeque.initial fun _ => false) events
          (deque s) ∧
        events.filter Event.visible =
          [.call 0 (.pop true),.call 1 (.push 7 false false),.ret 1 (.ok none),
            .ret 0 (.ok (some 7))] := by
  obtain ⟨tr,s,hrun,htest⟩ := exists_run_of_execute step
    (create 1 fun _ => false : MailboxSystem (Fin 2) ℕ)
    [.invoke 0 (.remove true),.run 0,.invoke 1 (.add 7 false false),.run 1,.run 0]
    (fun tr _ => tr.all (fun x => !flushes x.1 x.2) &&
      decide ((tr.flatMap fun x => observe x.1 x.2) =
        [.call 0 (.pop true),.call 1 (.push 7 false false),.ret 1 (.ok none),
          .ret 0 (.ok (some 7))])) (by decide)
  simp only [Bool.and_eq_true,decide_eq_true_eq,List.all_eq_true,Bool.not_eq_true'] at htest
  obtain ⟨⟨exact,-⟩,-,events,hpath,hvisible⟩ := mailbox_refines_deque hrun htest.1
  exact ⟨tr,s,hrun,exact,events,hpath,hvisible.trans htest.2⟩

end MailboxSystem
end ProcessMessagePassing
