import ProcessMessagePassing.Kernel.Calls
import ProcessMessagePassing.Kernel.Claims
import ProcessMessagePassing.Kernel.Termination
import ProcessMessagePassing.Mailbox.Waiters

/-! The counters of a mailbox. They are ints, and none of them is ever below zero or above the number
of the tasks that are in a call. -/
namespace ProcessMessagePassing
open Concurrency

lemma work_of_inCall {c : Pc} (h : c.inCall = true) : c.work ≠ 0 := by
  cases c with
  | onMailbox m cs k =>
    have hwork := cs.work_pos
    change cs.work + k.work ≠ 0
    omega
  | validate | lookup | checkExiting | createMessage | copyCount | copyToUser | destroyMessage => nofun
  | _ => cases h

lemma inCall_of_holdsClaim {c : Pc} {m : ℕ} (h : c.HoldsClaim m) : c.inCall = true := by
  cases c with
  | onMailbox n cs k => cases k <;> first | rfl | exact h.elim
  | checkExiting | createMessage | copyCount | copyToUser => rfl
  | _ => exact h.elim

/-- Who waits to add or to remove is in a call. -/
lemma inCall_of_waits {c : Pc} (fits : c.Fits) {m : ℕ} {cs : CallState MessagePtr}
    (call : c.call = some (m,cs)) (waits : cs.entryFlag = some true) : c.inCall = true := by
  obtain ⟨k,rfl⟩ := Pc.call_eq call
  cases k with
  | hook group =>
    cases fits
    cases waits
  | _ => rfl

namespace System
variable {hash32 : Pid → ℕ} {sig : Actor → Bool} {s : System} {tr : List (System × Action)} {m : ℕ}

/-- The tasks that are in a call. -/
def inCalls (s : System) : Set Pid := {p | (s.pc p).inCall = true}

lemma finite_inCalls (h : Run (step hash32) (initial sig) tr s) : s.inCalls.Finite := by
  have hbusy : s.work.support.Finite := (bounded_of_run h).finite
  refine (hbusy.preimage fun p _ q _ hpq => Actor.task.inj hpq).subset ?_
  intro p hp
  exact work_of_inCall hp

/-- The counters of the mailbox, each between zero and a number that an int can hold. -/
structure CountersFit (s : System) (m : ℕ) : Prop where
  messageCount : 0 ≤ (s.mailboxes m).messageCount ∧ (s.mailboxes m).messageCount ≤ 32
  waiting : 0 ≤ (s.mailboxes m).waiting ∧ (s.mailboxes m).waiting ≤ s.inCalls.ncard
  dereferences : 0 ≤ (s.mailboxes m).dereferences ∧ (s.mailboxes m).dereferences ≤ s.inCalls.ncard

lemma waiting_le (h : Run (step hash32) (initial sig) tr s) (created : m < s.mailboxesCreated) :
    0 ≤ (s.mailboxes m).waiting ∧ (s.mailboxes m).waiting ≤ s.inCalls.ncard := by
  obtain ⟨pending,tr',hrun⟩ := project_run h created
  have hcounts := (MailboxSystem.waitInvariant_of_run hrun).waiting
  have hc := consistent_of_run h
  refine ⟨hcounts.nonneg,hcounts.le_ncard Actor.task (finite_inCalls h) ?_⟩
  intro a hwaits
  obtain ⟨cs,hcall,hflag⟩ := Option.bind_eq_some_iff.mp hwaits
  have hon := callsOn_eq_some_iff.mp hcall
  cases a with
  | task p => exact ⟨p,inCall_of_waits (hc.fits p) hon hflag,rfl⟩
  | kthread k =>
    -- a deletion thread waits for nobody but the last one to leave
    obtain ⟨d,hd,hcalled⟩ := Option.bind_eq_some_iff.mp hon
    obtain rfl := d.call_eq hcalled
    have hdestroys : cs.Destroys := hc.destroys k _ hd
    cases cs with
    | addWaiting | removeWaiting => exact hdestroys.elim
    | _ => cases hflag

/-- No counter of a mailbox leaves the range that the tasks in calls allow. -/
theorem counters_fit (h : Run (step hash32) (initial sig) tr s)
    (quiet : ∀ k, sig (.kthread k) = false) (silent : ∀ x ∈ tr, x.2.signalsDeletion = false)
    (created : m < s.mailboxesCreated) : s.CountersFit m where
  messageCount := by
    obtain ⟨hbounded,hmax⟩ := mailbox_bounded h created
    rw [← hmax]
    exact hbounded
  waiting := waiting_le h created
  dereferences := by
    have hcounts : Counts (s.mailboxes m).dereferences s.pc (Pc.HoldsClaim m) :=
      counts_holdsClaim rfl ((claimInvariant_of_run h quiet silent).registry.counts m)
    refine ⟨hcounts.nonneg,hcounts.le_ncard id (finite_inCalls h) ?_⟩
    intro p hp
    exact ⟨p,inCall_of_holdsClaim hp,rfl⟩

/-- Process 1001 sleeps in a receive from its own mailbox, and 1002 has claimed that for a send. -/
theorem counters_fit_while_receiving : ∃ (tr : List (System × Action)) (s : System),
    Run (step goldenHash32) (initial fun _ => false) tr s ∧ (s.mailboxes 0).waiting = 1 ∧
      (s.mailboxes 0).dereferences = 2 ∧ s.CountersFit 0 := by
  obtain ⟨tr,s,hrun,htest⟩ := exists_run_of_execute (step goldenHash32) (initial fun _ => false)
    ([.newProcess 1001 1000,.newProcess 1002 1000,.enter 1001 (.recieveMessage ⟨4,0,4⟩ true)] ++
      runs 1001 4 ++ [.enter 1002 (.sendMessage 1001 0 false)] ++ runs 1002 4)
    (fun tr s => tr.all (fun x => !x.2.signalsDeletion) && decide (0 < s.mailboxesCreated ∧
      (s.mailboxes 0).waiting = 1 ∧ (s.mailboxes 0).dereferences = 2)) (by decide +kernel)
  simp only [Bool.and_eq_true,List.all_eq_true,Bool.not_eq_true',decide_eq_true_eq] at htest
  obtain ⟨hsilent,hcreated,hwaiting,hclaims⟩ := htest
  exact ⟨tr,s,hrun,hwaiting,hclaims,counters_fit hrun (fun _ => rfl) hsilent hcreated⟩

end System
end ProcessMessagePassing
