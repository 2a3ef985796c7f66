import ProcessMessagePassing.Kernel.Leak

/-! What becomes of the message objects. The books of the message cache balance at every moment of
every run. -/
namespace ProcessMessagePassing
open Concurrency

namespace System
variable {hash32 : Pid → ℕ} {sig : Actor → Bool} {s : System} {tr : List (System × Action)}

/-- How many adds of the message have been refused. -/
def refusals (tr : List (System × Action)) (n : ℕ) : ℕ :=
  (tr.filterMap fun x => x.1.refuses x.2).count (.object n)

lemma refusals_snoc (tr : List (System × Action)) (s : System) (act : Action) (n : ℕ) :
    refusals (tr ++ [(s,act)]) n =
      refusals tr n + if s.refuses act = some (.object n) then 1 else 0 := by
  unfold refusals
  rw [List.filterMap_append,List.count_append]
  congr 1
  cases hrefuses : s.refuses act with
  | none => simp [hrefuses]
  | some x => simp [hrefuses,List.count_singleton]

open Classical in
/-- The messages that are lost are the ones with which an add was refused, once each. -/
lemma refusals_eq (h : Run (step hash32) (initial sig) tr s) (n : ℕ) :
    refusals tr n = if s.custody.Lost n then 1 else 0 := by
  induction h with
  | refl =>
    rw [if_neg fun hlost => Nat.not_lt_zero n hlost.1.1]
    rfl
  | @snoc tr s act s' prior taken ih =>
    have hinv := custodyInvariant_of_run prior
    rw [refusals_snoc,ih]
    rcases (messageStep_of_run prior taken).custody hinv.custody hinv.once with
      ⟨haccepts,he | hstep⟩ | ⟨p,k,hrefuses,hdrop⟩
    · rw [he,if_neg (haccepts n),Nat.add_zero]
    · rw [if_neg (haccepts n),Nat.add_zero,if_congr hstep.lost_iff.symm rfl rfl]
    · -- a call has the message until the add is refused, so it was not lost before
      rw [hrefuses,if_congr (hdrop.lost_iff hinv.custody) rfl rfl]
      by_cases hn : n = k
      · subst n
        have hkept : ¬ s.custody.Lost k := fun hlost => hlost.2 (.call p) hdrop.source
        simp [hkept]
      · have hne : k ≠ n := fun hk => hn hk.symm
        simp [hn,hne]

/-- Every message object that `message_create` ever allocated is at one place, or has been freed, or
an add was refused with it, and only one of the three, and none of them twice. -/
theorem message_ledger (h : Run (step hash32) (initial sig) tr s) (n : ℕ) :
    {pl | s.Has n pl}.encard + s.messages.frees n + refusals tr n =
      if n < s.messages.created then 1 else 0 := by
  classical
  have hplaces : {pl | s.Has n pl} = {pl | s.custody.has pl n} :=
    Set.ext fun pl => has_iff h n pl
  have hledger := (custodyInvariant_of_run h).custody.ledger n
  rw [hplaces,refusals_eq h]
  push_cast
  exact hledger.trans (if_congr Iff.rfl rfl rfl)

/-- Process 1001 stops its mailbox and sends itself a message, which is refused. -/
theorem message_ledger_after_stop : ∃ (tr : List (System × Action)) (s : System),
    Run (step goldenHash32) (initial fun _ => false) tr s ∧ s.messages.created = 1 ∧
      refusals tr 0 = 1 ∧ {pl | s.Has 0 pl}.encard + s.messages.frees 0 + refusals tr 0 = 1 := by
  obtain ⟨tr,s,hrun,htest⟩ := exists_run_of_execute (step goldenHash32) (initial fun _ => false)
    ([.newProcess 1001 1000,.enter 1001 (.manageMailbox true 4)] ++ runs 1001 6 ++
      [.enter 1001 (.sendMessage 1001 0 false)] ++ runs 1001 6)
    (fun tr s => decide (s.messages.created = 1 ∧ refusals tr 0 = 1)) (by decide +kernel)
  obtain ⟨hcreated,hrefused⟩ := of_decide_eq_true htest
  have hledger := message_ledger hrun 0
  rw [hcreated,if_pos Nat.zero_lt_one] at hledger
  exact ⟨tr,s,hrun,hcreated,hrefused,hledger⟩

end System
end ProcessMessagePassing
