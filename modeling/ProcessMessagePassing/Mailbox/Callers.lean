import ProcessMessagePassing.Concurrency.Run
import ProcessMessagePassing.Mailbox.Sections
import Mathlib.Logic.Function.Basic

/-! One mailbox and all its callers. Any number of callers invoke its functions at any time,
signals come at any time, and the scheduler picks who takes the lock next. -/
namespace ProcessMessagePassing
open Concurrency Concurrency.WaitQueue

/-- The functions of a mailbox that a caller can be in. -/
inductive Call (μ : Type)
  | add (message : μ) (block head : Bool)
  | remove (block : Bool)
  | stop
  | exiting
  | claim
  | unclaim
  | destroy
  deriving DecidableEq, Repr

/-- `mailbox_stop` and `mailbox_exiting` are `__mailbox_stop` with their status. -/
def Call.start {μ : Type} : Call μ → CallState μ
  | .add x block head => .addMessage x block head
  | .remove block => .removeMessage block
  | .stop => .stop stoppedFlag
  | .exiting => .stop (exitingFlag ||| stoppedFlag)
  | .claim => .claim
  | .unclaim => .unclaim
  | .destroy => .destroy

/-- Where the caller stands after a section, if it is still inside its function. -/
def Progress.callState {μ : Type} : Progress μ → Option (CallState μ)
  | .next cs => some cs
  | .flushed _ => some .awaitUnclaimed
  | .returned _ => none

/-- The caller is inside `mailbox_add_message`. -/
def CallState.Adds {μ : Type} (cs : CallState μ) : Prop :=
  (∃ x block head, cs = .addMessage x block head) ∨ ∃ x head, cs = .addWaiting x head

/-- The message that the caller adds, and whether at the head. -/
def CallState.adding {μ : Type} : CallState μ → Option (μ × Bool)
  | .addMessage x _ head => some (x,head)
  | .addWaiting x head => some (x,head)
  | _ => none

/-- The caller is inside `mailbox_remove_message`. -/
def CallState.Removes {μ : Type} (cs : CallState μ) : Prop :=
  (∃ block, cs = .removeMessage block) ∨ cs = .removeWaiting

structure MailboxSystem (α μ : Type) where
  mailbox : Mailbox α μ
  calls : α → Option (CallState μ)
  signalPending : α → Bool

namespace MailboxSystem
variable {α μ : Type}

/-- `handle` clears the pending signal of a caller that is back in user mode. -/
inductive Action (α μ : Type)
  | invoke (a : α) (c : Call μ)
  | signal (a : α)
  | handle (a : α)
  | run (a : α)
  deriving DecidableEq, Repr

/-- A mailbox fresh from `mailbox_create`, with no call on it. -/
def create (owner : Pid) (signalPending : α → Bool) : MailboxSystem α μ where
  mailbox := .create owner
  calls := fun _ => none
  signalPending := signalPending

variable [DecidableEq α]

/-- The mailbox and the progress of a caller that takes the lock now. -/
def lockedBy (s : MailboxSystem α μ) (a : α) (cs : CallState μ) : Mailbox α μ × Progress μ :=
  Mailbox.criticalSection a (s.signalPending a) s.mailbox cs

def runCaller (s : MailboxSystem α μ) (a : α) (cs : CallState μ) : MailboxSystem α μ :=
  { s with
    mailbox := (s.lockedBy a cs).1
    calls := Function.update s.calls a (s.lockedBy a cs).2.callState }

def step (s : MailboxSystem α μ) : Action α μ → Option (MailboxSystem α μ)
  | .invoke a c =>
    if (s.calls a).isNone then
      some { s with calls := Function.update s.calls a (some c.start) }
    else none
  | .signal a => some { s with signalPending := Function.update s.signalPending a true }
  | .handle a =>
    if (s.calls a).isNone then
      some { s with signalPending := Function.update s.signalPending a false }
    else none
  | .run a =>
    match s.calls a with
    | some cs =>
      if s.mailbox.runnable a (s.signalPending a) cs then some (s.runCaller a cs) else none
    | none => none

/-- How the section that an action runs ends. -/
def outcome (s : MailboxSystem α μ) : Action α μ → Option (Progress μ)
  | .run a => (s.calls a).map fun cs => (s.lockedBy a cs).2
  | _ => none

/-- Everything a step can do. -/
inductive Stepped (s : MailboxSystem α μ) : Action α μ → MailboxSystem α μ → Prop
  | invoke {a c} (idle : s.calls a = none) :
      Stepped s (.invoke a c) { s with calls := Function.update s.calls a (some c.start) }
  | signal {a} :
      Stepped s (.signal a) { s with signalPending := Function.update s.signalPending a true }
  | handle {a} (idle : s.calls a = none) :
      Stepped s (.handle a) { s with signalPending := Function.update s.signalPending a false }
  | run {a cs m p} (called : s.calls a = some cs)
      (runnable : s.mailbox.runnable a (s.signalPending a) cs = true)
      (outcome : s.outcome (.run a) = some p)
      (locked : Mailbox.Locked a (s.signalPending a) s.mailbox cs m p) :
      Stepped s (.run a)
        { s with mailbox := m, calls := Function.update s.calls a p.callState }

theorem step_stepped {s s' : MailboxSystem α μ} {act : Action α μ} (h : s.step act = some s') :
    Stepped s act s' := by
  cases act with
  | invoke a c =>
    simp only [step] at h
    split_ifs at h with hi
    cases h
    exact .invoke (Option.isNone_iff_eq_none.mp hi)
  | signal a => cases h; exact .signal
  | handle a =>
    simp only [step] at h
    split_ifs at h with hi
    cases h
    exact .handle (Option.isNone_iff_eq_none.mp hi)
  | run a =>
    cases hc : s.calls a with
    | none => simp [step,hc] at h
    | some cs =>
      simp only [step,hc] at h
      split_ifs at h with hr
      cases h
      exact .run hc hr (by simp [MailboxSystem.outcome,hc])
        (Mailbox.criticalSection_locked a (s.signalPending a) s.mailbox cs)

/-- A call in progress is stuck when it cannot take its next lock: it is asleep on a queue,
with no wake-up and no signal pending. -/
def Quiescent (s : MailboxSystem α μ) : Prop :=
  ∀ a cs, s.calls a = some cs → s.mailbox.runnable a (s.signalPending a) cs = false

end MailboxSystem
end ProcessMessagePassing
