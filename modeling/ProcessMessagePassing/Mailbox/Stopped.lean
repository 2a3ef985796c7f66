import ProcessMessagePassing.Mailbox.Callers

/-! The writers of `stopped`. Only `__mailbox_stop` writes it, always with a status that has
`STOPPED` in it, so a stopped mailbox stays stopped. -/
namespace ProcessMessagePassing
open Concurrency Concurrency.WaitQueue

variable {α μ : Type}

@[simp] theorem stoppedFlag_ne_zero : stoppedFlag ≠ 0 := by decide
@[simp] theorem exiting_status_ne_zero : exitingFlag ||| stoppedFlag ≠ 0 := by decide

namespace Mailbox

/-- The status a section writes to `stopped`, if it writes one. -/
def writesStopped : CallState μ → Option ℕ
  | .stop status => some status
  | .destroy => some (exitingFlag ||| stoppedFlag)
  | _ => none

lemma writesStopped_flushing {cs : CallState μ} (h : cs = .flush ∨ cs = .flushWaiting) :
    writesStopped cs = none := by rcases h with rfl | rfl <;> rfl

lemma writesStopped_awaiting {cs : CallState μ}
    (h : cs = .awaitUnclaimed ∨ cs = .awaitingUnclaimed) : writesStopped cs = none := by
  rcases h with rfl | rfl <;> rfl

theorem Locked.stopped_eq [DecidableEq α] {a : α} {signalPending : Bool} {m m' : Mailbox α μ}
    {cs : CallState μ} {p : Progress μ} (h : Locked a signalPending m cs m' p) :
    m'.stopped = (writesStopped cs).getD m.stopped := by
  cases h with
  | flushSleep h | flushNow h => rw [writesStopped_flushing h]; rfl
  | unclaimedSleep h | unclaimedNow h => rw [writesStopped_awaiting h]; rfl
  | unclaimNow => exact unclaim_stopped m
  | _ => rfl

end Mailbox

namespace MailboxSystem

/-- A caller that is past the stop of its `mailbox_destroy`. -/
def Destroying (c : Option (CallState μ)) : Prop :=
  c = some .flush ∨ c = some .flushWaiting ∨ c = some .awaitUnclaimed ∨
    c = some .awaitingUnclaimed ∨ c = some .free

/-- Whatever the next section of the caller writes to `stopped` stops the mailbox. -/
def WritesStop (c : Option (CallState μ)) : Prop :=
  ∀ cs st, c = some cs → Mailbox.writesStopped cs = some st → st ≠ 0

/-- Every stop under way writes a status that stops, and whoever is destroying the mailbox has
stopped it. -/
structure StopInvariant (s : MailboxSystem α μ) : Prop where
  status : ∀ a, WritesStop (s.calls a)
  destroying : ∀ a, Destroying (s.calls a) → s.mailbox.stopped ≠ 0

theorem stopInvariant_create (owner : Pid) (signalPending : α → Bool) :
    StopInvariant (create owner signalPending : MailboxSystem α μ) where
  status := by simp [create,WritesStop]
  destroying := by simp [create,Destroying]

lemma writesStop_start (c : Call μ) : WritesStop (some c.start) := by
  rintro cs st ⟨⟩ h
  cases c with
  | stop => cases h; exact stoppedFlag_ne_zero
  | exiting | destroy => cases h; exact exiting_status_ne_zero
  | add | remove | claim | unclaim => cases h

lemma not_destroying_start (c : Call μ) : ¬ Destroying (some c.start) := by
  cases c <;> simp [Destroying,Call.start]

variable [DecidableEq α]

/-- A section leaves its caller with nothing more to write to `stopped`. -/
lemma writesStop_callState {a : α} {sig : Bool} {m m' : Mailbox α μ} {cs : CallState μ}
    {p : Progress μ} (h : Mailbox.Locked a sig m cs m' p) : WritesStop p.callState := by
  intro cs' st hp hw
  cases h <;> cases hp <;> cases hw

/-- A section that leaves its caller in `mailbox_destroy` is one of `mailbox_destroy`. -/
lemma destroying_of_callState {a : α} {sig : Bool} {m m' : Mailbox α μ} {cs : CallState μ}
    {p : Progress μ} (h : Mailbox.Locked a sig m cs m' p) (hp : Destroying p.callState) :
    cs = .destroy ∨ Destroying (some cs) := by
  cases h with
  | destroyStop => exact .inl rfl
  | flushSleep h | flushNow h => rcases h with rfl | rfl <;> simp [Destroying]
  | unclaimedSleep h | unclaimedNow h => rcases h with rfl | rfl <;> simp [Destroying]
  | _ => simp [Destroying,Progress.callState] at hp

/-- No step takes `stopped` back to zero. -/
theorem StopInvariant.stopped_stepped {s s' : MailboxSystem α μ} {act : Action α μ}
    (h : StopInvariant s) (hs : Stepped s act s') (stopped : s.mailbox.stopped ≠ 0) :
    s'.mailbox.stopped ≠ 0 := by
  cases hs with
  | invoke | signal | handle => exact stopped
  | @run a cs m p called _ _ locked =>
    change m.stopped ≠ 0
    rw [locked.stopped_eq]
    cases hw : Mailbox.writesStopped cs with
    | none => exact stopped
    | some st => exact h.status a cs st called hw

theorem StopInvariant.stepped {s s' : MailboxSystem α μ} {act : Action α μ}
    (h : StopInvariant s) (hs : Stepped s act s') : StopInvariant s' := by
  have hstop := h.stopped_stepped hs
  cases hs with
  | @invoke a c idle =>
    constructor
    · exact (Function.forall_update_iff _ fun _ c => WritesStop c).mpr
        ⟨writesStop_start c,fun b _ => h.status b⟩
    · exact (Function.forall_update_iff _ fun _ c => Destroying c → s.mailbox.stopped ≠ 0).mpr
        ⟨fun hd => absurd hd (not_destroying_start c),fun b _ => h.destroying b⟩
  | signal | handle => exact ⟨h.status,h.destroying⟩
  | @run a cs m p called _ _ locked =>
    constructor
    · exact (Function.forall_update_iff _ fun _ c => WritesStop c).mpr
        ⟨writesStop_callState locked,fun b _ => h.status b⟩
    · refine (Function.forall_update_iff _ fun _ c => Destroying c → m.stopped ≠ 0).mpr
        ⟨fun hd => ?_,fun b _ hd => hstop (h.destroying b hd)⟩
      rcases destroying_of_callState locked hd with rfl | hd
      · exact locked.stopped_eq ▸ exiting_status_ne_zero
      · exact hstop (h.destroying a (called ▸ hd))

variable {owner : Pid} {sig : α → Bool} {tr tr' : List (MailboxSystem α μ × Action α μ)}
  {s s' : MailboxSystem α μ}

theorem stopInvariant_of_run (h : Run step (create owner sig) tr s) : StopInvariant s :=
  h.invariant (stopInvariant_create owner sig) fun _ _ _ hs ht => hs.stepped (step_stepped ht)

/-- A stopped mailbox is stopped after every continuation. -/
theorem stopped_of_run (h : StopInvariant s) (stopped : s.mailbox.stopped ≠ 0)
    (run : Run step s tr' s') : s'.mailbox.stopped ≠ 0 := by
  have hboth : StopInvariant s' ∧ s'.mailbox.stopped ≠ 0 :=
    run.invariant (P := fun t => StopInvariant t ∧ t.mailbox.stopped ≠ 0) ⟨h,stopped⟩
      fun _ _ _ hs ht => ⟨hs.1.stepped (step_stepped ht),hs.1.stopped_stepped (step_stepped ht) hs.2⟩
  exact hboth.2

end MailboxSystem
end ProcessMessagePassing
