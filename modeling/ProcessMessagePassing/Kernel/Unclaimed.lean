import ProcessMessagePassing.Kernel.Claims
import ProcessMessagePassing.Kernel.Tasks

/-! The deletion threads that wait for a mailbox to be unclaimed. The last unclaim wakes one of
them, and that one frees the mailbox; if there are others, nobody wakes them any more. -/
namespace ProcessMessagePassing
open Concurrency Concurrency.WaitQueue HashTable

/-- The caller waits for the mailbox to be unclaimed, or is about to free it. -/
def CallState.Awaits (cs : CallState MessagePtr) : Prop := cs = .awaitingUnclaimed ∨ cs = .free

namespace Mailbox
variable {a : Actor} {sig : Bool} {m m' : Mailbox Actor MessagePtr} {cs : CallState MessagePtr}
  {pr : Progress MessagePtr}

/-- What a section does about the claims: nothing, or it claims, unclaims, waits, has waited, or
frees the mailbox. -/
inductive ClaimStep (a : Actor) (m : Mailbox Actor MessagePtr) (cs : CallState MessagePtr)
    (m' : Mailbox Actor MessagePtr) (next : Option (CallState MessagePtr)) : Prop
  | other (here : ¬ cs.Awaits) (queue : m'.dereferenceQueue = m.dereferenceQueue)
      (claims : m'.dereferences = m.dereferences) (frees : m'.frees = m.frees)
  | claim (here : ¬ cs.Awaits) (queue : m'.dereferenceQueue = m.dereferenceQueue)
      (claims : m'.dereferences = m.dereferences + 1)
  | unclaim (here : ¬ cs.Awaits) (claims : m'.dereferences ≠ 0)
      (queue : m'.dereferenceQueue = m.dereferenceQueue)
  | unclaimLast (here : ¬ cs.Awaits) (queue : m'.dereferenceQueue = wakeUp m.dereferenceQueue)
  | sleeps (claimed : m'.dereferences ≠ 0)
      (queue : m'.dereferenceQueue = enqueue ⟨a,true⟩ m.dereferenceQueue)
      (next : next = some .awaitingUnclaimed)
  | leaves (queue : m'.dereferenceQueue = dequeue a m.dereferenceQueue) (next : next = some .free)
  | frees (here : cs = .free) (queue : m'.dereferenceQueue = m.dereferenceQueue)
      (frees : m'.frees ≠ 0)

lemma not_awaits_flushing (h : cs = .flush ∨ cs = .flushWaiting) : ¬ cs.Awaits := by
  rcases h with rfl | rfl <;> simp [CallState.Awaits]

theorem Locked.claimStep (h : Locked a sig m cs m' pr) : ClaimStep a m cs m' pr.callState := by
  cases h with
  | claimNow => exact .claim (by simp [CallState.Awaits]) rfl rfl
  | unclaimNow =>
    have hhere : ¬ (CallState.unclaim : CallState MessagePtr).Awaits := by simp [CallState.Awaits]
    by_cases hlast : m.dereferences - 1 = 0
    · exact .unclaimLast hhere (by simp [unclaim,hlast])
    · exact .unclaim hhere (by rwa [unclaim_dereferences]) (by simp [unclaim,hlast])
  | unclaimedSleep awaiting busy => exact .sleeps busy rfl rfl
  | unclaimedNow awaiting => exact .leaves rfl rfl
  | freeNow => exact .frees rfl rfl (Nat.succ_ne_zero _)
  | flushSleep h | flushNow h => exact .other (not_awaits_flushing h) rfl rfl rfl
  | _ => exact .other (by simp [CallState.Awaits]) rfl rfl rfl

end Mailbox

namespace System
variable {hash32 : Pid → ℕ} {sig : Actor → Bool} {s s' t : System} {act : Action} {a : Actor}
  {m : ℕ} {cs : CallState MessagePtr} {tr : List (System × Action)}

/-- After a section of a thread it is where the section left it in its function, or on its way to
another one. -/
theorem Stepped.call_section (h : Stepped hash32 s act s') (running : s.running act = some (a,m,cs)) :
    ∃ pr, s.Section a m cs (s'.mailboxes m) pr ∧
      (∀ cs', pr.callState = some cs' → s'.call a = some (m,cs')) ∧
      (pr.callState = none → Starts (s'.call a)) := by
  obtain ⟨actor,called⟩ := running_eq_some_iff.mp running
  cases a with
  | task p =>
    obtain ⟨k,pr,ts⟩ := h.task_section running
    refine ⟨pr,ts.locked,?_⟩
    rcases ts.next with ⟨cs',hstays,hpc⟩ | ⟨r,rfl,hpc⟩
    · refine ⟨fun cs'' hcs => ?_,fun hnone => ?_⟩
      · rw [hstays] at hcs
        cases hcs
        exact call_task hpc
      · rw [hstays] at hnone
        cases hnone
    · refine ⟨fun cs' hcs => (by cases hcs),fun _ => ?_⟩
      rw [call_task hpc]
      exact starts_resume m r k
  | kthread k =>
    cases h with
    | newProcess | clone | enter | exit | exitGroup | fatalSignal | killed | reap | signal
    | handle | valid | invalid | found | created | outOfMemory | stays | returned | refused
    | granted | messageCreated | messageFailed | countFault | countCopied | copied | copyFault
    | destroyed | lastThread | otherThread | removalFound | removalMissing | deletionStarted
    | deletionFailed | realExit | decrementLive | die => cases actor
    | ownerRead deletion | stillValid deletion | exited deletion | unlinked deletion =>
      cases actor
      rw [call_kthread deletion] at called
      cases called
    | destroyStays deletion locked | flushed deletion locked =>
      cases actor
      rw [call_kthread deletion] at called
      cases called
      refine ⟨_,section_after locked rfl,fun cs' hcs => ?_,fun hnone => (by cases hnone)⟩
      cases hcs
      exact call_setDeletion_self _ _ _
    | deleted deletion locked =>
      cases actor
      rw [call_kthread deletion] at called
      cases called
      refine ⟨_,section_after locked rfl,fun cs' hcs => (by cases hcs),fun _ => ?_⟩
      rw [call_setDeletion_self]
      exact starts_none

lemma call_setPc_cases {p : Pid} {c c' : Pc} (pc : s.pc p = c) (idle : c.call = none)
    (starts : Starts c'.call) (calls : t.call = s.call) :
    (t.setPc p c').call a = s.call a ∨ s.call a = none ∧ Starts ((t.setPc p c').call a) := by
  by_cases ha : a = .task p
  · subst a
    right
    rw [call_task pc,call_setPc_self]
    exact ⟨idle,starts⟩
  · left
    rw [call_setPc_of_ne _ _ ha,calls]

lemma call_setDeletion_cases {k : ℕ} {d d' : DeletionThread} (deletion : s.deletions k = some d)
    (idle : d.call = none) (starts : Starts d'.call) (calls : t.call = s.call) :
    (t.setDeletion k d').call a = s.call a ∨
      s.call a = none ∧ Starts ((t.setDeletion k d').call a) := by
  by_cases ha : a = .kthread k
  · subst a
    right
    rw [call_kthread deletion,call_setDeletion_self]
    exact ⟨idle,starts⟩
  · left
    rw [call_setDeletion_of_ne _ _ ha,calls]

/-- A thread that takes no section stays where it is in a mailbox, or comes to one. -/
theorem Stepped.call_of_not_running (h : Stepped hash32 s act s') (hc : Consistent hash32 s)
    (rests : ∀ m cs, s.running act ≠ some (a,m,cs)) :
    s'.call a = s.call a ∨ s.call a = none ∧ Starts (s'.call a) := by
  cases h with
  | newProcess absent | clone _ _ absent => exact call_setPc_cases absent rfl starts_none rfl
  | enter pc | exit pc | exitGroup pc | killed pc | reap pc | valid pc | invalid pc
  | outOfMemory pc | destroyed pc | lastThread pc | otherThread pc | removalMissing pc
  | realExit pc | decrementLive pc | die pc | deletionFailed pc =>
    exact call_setPc_cases pc rfl starts_none rfl
  | deletionStarted pc =>
    exact call_setPc_cases pc rfl starts_none (call_kthreadRun hc _)
  | fatalSignal | signal | handle | stillValid => exact .inl rfl
  | found pc | created pc => exact call_setPc_cases pc rfl (starts_start _ .claim) rfl
  | refused pc | messageFailed pc | countFault pc | copied pc =>
    exact call_setPc_cases pc rfl (starts_start _ .unclaim) rfl
  | granted pc => exact call_setPc_cases pc rfl (starts_begin _ _) rfl
  | messageCreated pc | copyFault pc =>
    exact call_setPc_cases pc rfl (starts_start _ (.add _ _ _)) rfl
  | countCopied pc =>
    refine call_setPc_cases pc rfl ?_ rfl
    split
    · exact starts_start _ .stop
    · exact starts_start _ .unclaim
  | removalFound pc => exact call_setPc_cases pc rfl (starts_start _ .exiting) rfl
  | ownerRead deletion | exited deletion =>
    exact call_setDeletion_cases deletion rfl starts_none rfl
  | unlinked deletion =>
    exact call_setDeletion_cases deletion rfl (starts_start _ .destroy) rfl
  | @stays p o m cs _ _ _ _ pc | @returned p o m cs _ _ _ pc =>
    have ha : a ≠ .task p := by
      rintro rfl
      exact rests m cs (running_eq rfl (call_task pc))
    exact .inl (call_setPc_of_ne _ _ ha)
  | @destroyStays k m o cs _ _ deletion | @flushed k m o cs _ _ deletion
  | @deleted k m o cs _ _ deletion =>
    have ha : a ≠ .kthread k := by
      rintro rfl
      exact rests m cs (running_eq rfl (call_kthread deletion))
    exact .inl (call_setDeletion_of_ne _ _ ha)

/-- Of the mailbox: its queue lists deletion threads that wait, each once, and when nobody has a
claim any more but some wait, one of them has been woken, or one is about to free the mailbox, or it
has been freed. -/
structure Awaited (s : System) (m : ℕ) : Prop where
  entries : ∀ w ∈ (s.mailboxes m).dereferenceQueue,
    s.call w.task = some (m,.awaitingUnclaimed) ∧ w.exclusive = true
  nodup : (tasks (s.mailboxes m).dereferenceQueue).Nodup
  woken : (s.mailboxes m).dereferences = 0 → (s.mailboxes m).dereferenceQueue ≠ [] →
    (∃ a, s.call a = some (m,.awaitingUnclaimed) ∧ a ∉ tasks (s.mailboxes m).dereferenceQueue) ∨
      (∃ a, s.call a = some (m,.free)) ∨ s.Freed m

lemma Awaited.notMem (h : Awaited s m) (called : s.call a ≠ some (m,.awaitingUnclaimed)) :
    a ∉ tasks (s.mailboxes m).dereferenceQueue := by
  intro hmem
  obtain ⟨w,hw,rfl⟩ := List.mem_map.mp hmem
  exact called (h.entries w hw).1

/-- Nobody waits for a new mailbox. -/
lemma Awaited.created {pid : Pid} (mailbox : s.mailboxes m = .create pid) : Awaited s m := by
  have hqueue : (s.mailboxes m).dereferenceQueue = [] := by
    rw [mailbox]
    rfl
  refine ⟨?_,?_,?_⟩
  · rw [hqueue]
    simp
  · rw [hqueue]
    exact List.nodup_nil
  · intro _ hne
    exact absurd hqueue hne

/-- The mailbox has no section, and those that wait for it stay where they are. -/
lemma Awaited.keep (h : Awaited s m) (mailbox : s'.mailboxes m = s.mailboxes m)
    (kept : ∀ a cs, s.call a = some (m,cs) → s'.call a = some (m,cs)) : Awaited s' m := by
  refine ⟨?_,?_,?_⟩
  · intro w hw
    rw [mailbox] at hw
    obtain ⟨hcall,hexclusive⟩ := h.entries w hw
    exact ⟨kept _ _ hcall,hexclusive⟩
  · rw [mailbox]
    exact h.nodup
  · intro hzero hqueue
    rw [mailbox] at hzero hqueue ⊢
    rcases h.woken hzero hqueue with ⟨a,ha,hoff⟩ | ⟨a,ha⟩ | hfreed
    · exact .inl ⟨a,kept a _ ha,hoff⟩
    · exact .inr (.inl ⟨a,kept a _ ha⟩)
    · refine .inr (.inr ?_)
      unfold Freed
      rwa [mailbox]

/-- What is left of the queue after a section still lists deletion threads that wait. -/
lemma Awaited.of_sublist (h : Awaited s m) (sub : (s'.mailboxes m).dereferenceQueue.Sublist
      (s.mailboxes m).dereferenceQueue)
    (kept : ∀ b, b ≠ a → ∀ cs, s.call b = some (m,cs) → s'.call b = some (m,cs))
    (off : a ∉ tasks (s'.mailboxes m).dereferenceQueue)
    (woken : (s'.mailboxes m).dereferences = 0 → (s'.mailboxes m).dereferenceQueue ≠ [] →
      (∃ a, s'.call a = some (m,.awaitingUnclaimed) ∧
        a ∉ tasks (s'.mailboxes m).dereferenceQueue) ∨
      (∃ a, s'.call a = some (m,.free)) ∨ s'.Freed m) : Awaited s' m := by
  refine ⟨?_,h.nodup.sublist (sub.map _),woken⟩
  intro w hw
  obtain ⟨hcall,hexclusive⟩ := h.entries w (sub.subset hw)
  refine ⟨kept w.task ?_ _ hcall,hexclusive⟩
  rintro rfl
  exact off (List.mem_map.mpr ⟨w,hw,rfl⟩)

/-- A thread takes a section of the mailbox. -/
lemma Awaited.section (h : Awaited s m) (nonneg : 0 ≤ (s.mailboxes m).dereferences)
    (called : s.call a = some (m,cs)) {next : Option (CallState MessagePtr)}
    (taken : Mailbox.ClaimStep a (s.mailboxes m) cs (s'.mailboxes m) next)
    (after : ∀ cs', next = some cs' → s'.call a = some (m,cs'))
    (kept : ∀ b, b ≠ a → ∀ cs, s.call b = some (m,cs) → s'.call b = some (m,cs)) :
    Awaited s' m := by
  have hoff : ¬ cs.Awaits → a ∉ tasks (s.mailboxes m).dereferenceQueue := by
    intro hhere
    apply h.notMem
    rw [called]
    intro he
    cases he
    exact hhere (.inl rfl)
  have hother : ∀ b cs', ¬ cs.Awaits → cs'.Awaits → s.call b = some (m,cs') → b ≠ a := by
    rintro b cs' hhere hawaits hb rfl
    rw [called] at hb
    cases hb
    exact hhere hawaits
  cases taken with
  | other here queue claims frees =>
    refine h.of_sublist (queue ▸ List.Sublist.refl _) kept (queue ▸ hoff here) ?_
    rw [claims,queue]
    intro hzero hqueue
    rcases h.woken hzero hqueue with ⟨b,hb,hb'⟩ | ⟨b,hb⟩ | hfreed
    · exact .inl ⟨b,kept b (hother b _ here (.inl rfl) hb) _ hb,hb'⟩
    · exact .inr (.inl ⟨b,kept b (hother b _ here (.inr rfl) hb) _ hb⟩)
    · refine .inr (.inr ?_)
      unfold Freed
      rwa [frees]
  | claim here queue claims =>
    refine h.of_sublist (queue ▸ List.Sublist.refl _) kept (queue ▸ hoff here) ?_
    intro hzero
    omega
  | unclaim here claims queue =>
    exact h.of_sublist (queue ▸ List.Sublist.refl _) kept (queue ▸ hoff here)
      fun hzero => absurd hzero claims
  | unclaimLast here queue =>
    have hsub := wakeUp_sublist (s.mailboxes m).dereferenceQueue
    refine h.of_sublist (queue ▸ hsub) kept (queue ▸ notMem_tasks_wakeUp (hoff here)) ?_
    rw [queue]
    intro _ hne
    obtain ⟨w,hw⟩ := List.exists_mem_of_ne_nil _ hne
    have hwq := hsub.subset hw
    obtain ⟨v,hv,-,hvq⟩ := exists_exclusive_woken h.nodup hwq (h.entries w hwq).2
    have hcall := (h.entries v hv).1
    exact .inl ⟨v.task,kept _ (hother _ _ here (.inl rfl) hcall) _ hcall,hvq⟩
  | sleeps claimed queue hnext =>
    refine ⟨?_,?_,fun hzero => absurd hzero claimed⟩
    · intro w hw
      rw [queue] at hw
      by_cases hwa : w.task = a
      · rcases mem_enqueue hw with hw | rfl
        · rw [hwa]
          exact ⟨after _ hnext,(h.entries w hw).2⟩
        · exact ⟨after _ hnext,rfl⟩
      · rcases mem_enqueue hw with hw | rfl
        · obtain ⟨hcall,hexclusive⟩ := h.entries w hw
          exact ⟨kept _ hwa _ hcall,hexclusive⟩
        · exact absurd rfl hwa
    · rw [queue]
      exact tasks_enqueue_nodup h.nodup
  | leaves queue hnext =>
    refine h.of_sublist (queue ▸ dequeue_sublist a _) kept (queue ▸ notMem_tasks_dequeue a _) ?_
    intro _ _
    exact .inr (.inl ⟨a,after _ hnext⟩)
  | frees here queue frees =>
    have hnot : a ∉ tasks (s.mailboxes m).dereferenceQueue := by
      apply h.notMem
      rw [called,here]
      simp
    refine h.of_sublist (queue ▸ List.Sublist.refl _) kept (queue ▸ hnot) ?_
    intro _ _
    exact .inr (.inr frees)

theorem Awaited.stepped (h : Awaited s m) (hc : Consistent hash32 s)
    (nonneg : 0 ≤ (s.mailboxes m).dereferences) (hs : Stepped hash32 s act s') : Awaited s' m := by
  have hkept : ∀ b, (∀ cs, s.running act ≠ some (b,m,cs)) → ∀ cs, s.call b = some (m,cs) →
      s'.call b = some (m,cs) := by
    intro b hrests cs hb
    have hrests' : ∀ n cs, s.running act ≠ some (b,n,cs) := by
      intro n cs' he
      have hcall := (running_eq_some_iff.mp he).2
      rw [hb] at hcall
      cases hcall
      exact hrests _ he
    rcases hs.call_of_not_running hc hrests' with he | ⟨hnone,-⟩
    · rw [he,hb]
    · rw [hb] at hnone
      cases hnone
  by_cases hrun : ∃ a cs, s.running act = some (a,m,cs)
  · obtain ⟨a,cs,hrun⟩ := hrun
    obtain ⟨pr,locked,after,-⟩ := hs.call_section hrun
    refine h.section nonneg (running_eq_some_iff.mp hrun).2 locked.2.claimStep after ?_
    intro b hb
    refine hkept b fun cs' he => ?_
    rw [hrun] at he
    cases he
    exact hb rfl
  · have hcalls : ∀ b cs, s.call b = some (m,cs) → s'.call b = some (m,cs) := by
      intro b cs hb
      exact hkept b (fun cs' he => hrun ⟨b,cs',he⟩) cs hb
    cases hs.mailboxStep m with
    | same mailbox => exact h.keep mailbox hcalls
    | created _ _ mailbox => exact .created mailbox
    | run running => exact absurd ⟨_,_,running⟩ hrun

theorem awaited_of_run (h : Run (step hash32) (initial sig) tr s)
    (quiet : ∀ k, sig (.kthread k) = false) (silent : ∀ x ∈ tr, x.2.signalsDeletion = false)
    (m : ℕ) : Awaited s m := by
  have hboth : ClaimInvariant hash32 s ∧ Awaited s m := by
    refine h.invariant_of_guard (C := fun _ act => act.signalsDeletion = false)
      (P := fun t => ClaimInvariant hash32 t ∧ Awaited t m)
      ⟨claimInvariant_initial quiet,.created rfl⟩ ?_ silent
    intro t act t' ⟨hinv,hawaited⟩ hact ht
    have hs := step_stepped ht
    exact ⟨hinv.stepped hact hs,hawaited.stepped hinv.consistent (hinv.registry.counts m).nonneg hs⟩
  exact hboth.2

end System
end ProcessMessagePassing
