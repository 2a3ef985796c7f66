import ProcessMessagePassing.Kernel.Fate
import ProcessMessagePassing.Kernel.Counters
import ProcessMessagePassing.Kernel.Linearization

/-! How much memory the messages take. A mailbox has room for 32 of them, a call has one in its hands,
and only those with which an add was refused are more. -/
namespace ProcessMessagePassing
open Concurrency

lemma encard_object_mem_le (l : List MessagePtr) : {n | .object n ∈ l}.encard ≤ l.length := by
  induction l with
  | nil => simp
  | cons x l ih =>
    have hcover : {n | .object n ∈ x :: l} ⊆ {n | .object n = x} ∪ {n | .object n ∈ l} := by
      intro n hn
      exact List.mem_cons.mp hn
    have hone : {n | MessagePtr.object n = x}.encard ≤ 1 := by
      refine Set.encard_le_one_iff.mpr fun n k hn hk => ?_
      exact MessagePtr.object.inj (hn.trans hk.symm)
    calc {n | .object n ∈ x :: l}.encard
        ≤ ({n | .object n = x} ∪ {n | .object n ∈ l}).encard := Set.encard_le_encard hcover
      _ ≤ {n | .object n = x}.encard + {n | .object n ∈ l}.encard := Set.encard_union_le _ _
      _ ≤ 1 + (l.length : ℕ∞) := add_le_add hone ih
      _ = ((x :: l).length : ℕ∞) := by rw [List.length_cons,Nat.cast_succ,add_comm]

/-- How many messages a place has room for. -/
def Place.room : Place → ℕ
  | .mailbox _ => 32
  | .call _ => 1

namespace System
variable {hash32 : Pid → ℕ} {sig : Actor → Bool} {s : System} {tr : List (System × Action)}

/-- The list of a mailbox is no longer than the mailbox says. -/
lemma length_messages_le (h : Run (step hash32) (initial sig) tr s) (m : ℕ) :
    (s.mailboxes m).messages.length ≤ 32 := by
  by_cases hcreated : m < s.mailboxesCreated
  · have hcounted := boxCounted_of_run h hcreated
    have hbound := hcounted.bounded.2
    rw [hcounted.max] at hbound
    rcases hcounted.counts with hexact | ⟨-,hempty⟩
    · unfold Mailbox.Exact at hexact
      omega
    · simp [hempty]
  · rw [uncreated_of_run h m (Nat.not_lt.mp hcreated)]
    exact Nat.zero_le _

lemma place_fits (h : Run (step hash32) (initial sig) tr s) (pl : Place) :
    {n | s.custody.has pl n}.encard ≤ pl.room := by
  cases pl with
  | mailbox m =>
    refine (encard_object_mem_le (s.mailboxes m).messages).trans ?_
    exact_mod_cast length_messages_le h m
  | call p =>
    refine Set.encard_le_one_iff.mpr fun n k hn hk => ?_
    exact MessagePtr.object.inj (Option.some.inj (hn.symm.trans hk))

/-- Only finitely many calls have a message. -/
lemma finite_holders (h : Run (step hash32) (initial sig) tr s) :
    {p | ∃ n, s.Has n (.call p)}.Finite := by
  refine (finite_inCalls h).subset ?_
  rintro p ⟨n,hcall,-⟩
  exact hcall

/-- The mailboxes that have not been freed, and the calls that have a message. -/
noncomputable def places (h : Run (step hash32) (initial sig) tr s) : Finset Place :=
  ((Finset.range s.mailboxesCreated).filter fun m => (s.mailboxes m).frees = 0).image .mailbox ∪
    (finite_holders h).toFinset.image .call

lemma mem_places (h : Run (step hash32) (initial sig) tr s) {pl : Place} {n : ℕ}
    (has : s.custody.has pl n) : pl ∈ places h := by
  have hhas := (has_iff h n pl).mpr has
  cases pl with
  | mailbox m =>
    obtain ⟨hfrees,hqueued⟩ := hhas
    have hcreated : m < s.mailboxesCreated := by
      by_contra hnew
      rw [uncreated_of_run h m (Nat.le_of_not_lt hnew)] at hqueued
      cases hqueued
    refine Finset.mem_union_left _ (Finset.mem_image_of_mem _ ?_)
    exact Finset.mem_filter.mpr ⟨Finset.mem_range.mpr hcreated,hfrees⟩
  | call p =>
    refine Finset.mem_union_right _ (Finset.mem_image_of_mem _ ?_)
    exact (finite_holders h).mem_toFinset.mpr ⟨n,hhas⟩

lemma room_places (h : Run (step hash32) (initial sig) tr s) :
    ∑ pl ∈ places h, (pl.room : ℕ∞) =
      32 * {m | m < s.mailboxesCreated ∧ (s.mailboxes m).frees = 0}.encard +
        {p | ∃ n, s.Has n (.call p)}.encard := by
  have hdisjoint : Disjoint
      (((Finset.range s.mailboxesCreated).filter fun m => (s.mailboxes m).frees = 0).image
        Place.mailbox) ((finite_holders h).toFinset.image .call) := by
    rw [Finset.disjoint_left]
    intro pl hm hp
    obtain ⟨m,-,rfl⟩ := Finset.mem_image.mp hm
    obtain ⟨p,-,hp⟩ := Finset.mem_image.mp hp
    cases hp
  have hmailboxes : {m | m < s.mailboxesCreated ∧ (s.mailboxes m).frees = 0} =
      ↑((Finset.range s.mailboxesCreated).filter fun m => (s.mailboxes m).frees = 0) := by
    ext m
    simp
  rw [places,Finset.sum_union hdisjoint,Finset.sum_image fun _ _ _ _ h => Place.mailbox.inj h,
    Finset.sum_image fun _ _ _ _ h => Place.call.inj h,hmailboxes,Set.encard_coe_eq_coe_finsetCard,
    (finite_holders h).encard_eq_coe_toFinset_card]
  simp [Place.room,mul_comm]

/-- No more messages are lost than adds have been refused. -/
lemma lost_le (h : Run (step hash32) (initial sig) tr s) :
    {n | s.custody.Lost n}.encard ≤ (tr.filterMap fun x => x.1.refuses x.2).length := by
  refine (Set.encard_le_encard fun n hlost => ?_).trans (encard_object_mem_le _)
  have hlost : s.custody.Lost n := hlost
  have hcount := refusals_eq h n
  rw [if_pos hlost] at hcount
  exact List.count_pos_iff.mp (Nat.lt_of_lt_of_eq Nat.one_pos hcount.symm)

/-- The live messages are no more than 32 for every mailbox that has not been freed, one for every call
that has one, and one for every add that was refused. -/
theorem live_messages_bounded (h : Run (step hash32) (initial sig) tr s) :
    {n | s.LiveMessage n}.encard ≤
      32 * {m | m < s.mailboxesCreated ∧ (s.mailboxes m).frees = 0}.encard +
        {p | ∃ n, s.Has n (.call p)}.encard +
        (tr.filterMap fun x => x.1.refuses x.2).length := by
  have hlive := s.custody.live_le (fun pl n has => mem_places h has) (place_fits h)
  rw [room_places h] at hlive
  exact hlive.trans (add_le_add_right (lost_le h) _)

/-- Process 1001 has sent itself a message. -/
theorem live_messages_bounded_after_send : ∃ (tr : List (System × Action)) (s : System),
    Run (step goldenHash32) (initial fun _ => false) tr s ∧ s.mailboxesCreated = 1 ∧
      s.LiveMessage 0 ∧
      {n | s.LiveMessage n}.encard ≤
        32 * {m | m < s.mailboxesCreated ∧ (s.mailboxes m).frees = 0}.encard +
          {p | ∃ n, s.Has n (.call p)}.encard +
          (tr.filterMap fun x => x.1.refuses x.2).length := by
  obtain ⟨tr,s,hrun,htest⟩ := exists_run_of_execute (step goldenHash32) (initial fun _ => false)
    ([.newProcess 1001 1000,.enter 1001 (.sendMessage 1001 0 false)] ++ runs 1001 6)
    (fun _ s => decide (s.mailboxesCreated = 1 ∧ 0 < s.messages.created ∧ s.messages.frees 0 = 0))
    (by decide +kernel)
  obtain ⟨hcreated,hlive⟩ := of_decide_eq_true htest
  exact ⟨tr,s,hrun,hcreated,hlive,live_messages_bounded hrun⟩

end System
end ProcessMessagePassing
