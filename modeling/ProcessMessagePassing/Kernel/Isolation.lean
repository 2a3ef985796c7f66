import ProcessMessagePassing.Kernel.Linearization
import ProcessMessagePassing.Kernel.Orphan

/-! Who may do what to a mailbox. Any process can add to the end of it by a send to its owner; only
the process it belongs to takes messages from it, puts them back or stops it, and it is closed and
flushed only after an exit of that process. -/
namespace ProcessMessagePassing
open Concurrency Concurrency.BoundedDeque HashTable

namespace System
open Service
variable {hash32 : Pid → ℕ} {sig : Actor → Bool} {s s' : System} {act : Action}
  {tr before after : List (System × Action)} {p : Pid} {m : ℕ}

/-- A task of the process has marked the mailbox for its end on its way out. -/
def Exited (hash32 : Pid → ℕ) (tr : List (System × Action)) (pid : Pid) (m : ℕ) : Prop :=
  ∃ x ∈ tr, ∃ p, x.1.processes.tgid p = pid ∧
    .did p (.stop m (exitingFlag ||| stoppedFlag)) ∈ x.1.events hash32 x.2

/-- What entitles to the event after these steps, where it is one on a mailbox. -/
def Entitled (hash32 : Pid → ℕ) (tr : List (System × Action)) (s : System) : Event → Prop
  | .did p (.push m _ false) => ∃ i len block, callOf p tr = some (i,.sendMessage (s.owner m) len block)
  | .did p (.push m _ true) => s.processes.tgid p = s.owner m ∧
      ∃ i ptrs block, callOf p tr = some (i,.recieveMessage ptrs block)
  | .did p (.pop m _) => s.processes.tgid p = s.owner m ∧
      ∃ i ptrs block, callOf p tr = some (i,.recieveMessage ptrs block)
  | .did p (.stop m status) => s.processes.tgid p = s.owner m ∧
      (status = stoppedFlag ∧ (∃ i count, callOf p tr = some (i,.manageMailbox true count)) ∨
        status = exitingFlag ||| stoppedFlag ∧ (s.pc p).inCall = false)
  | .close m => Exited hash32 tr (s.owner m) m
  | .flush m => Exited hash32 tr (s.owner m) m
  | _ => True

lemma Exited.mono {pid : Pid} (h : Exited hash32 tr pid m) (more : List (System × Action)) :
    Exited hash32 (tr ++ more) pid m := by
  obtain ⟨x,hx,hrest⟩ := h
  exact ⟨x,List.mem_append_left _ hx,hrest⟩

/-- The mailboxes that are on their way out belong to processes that have exited. -/
structure ExitInvariant (hash32 : Pid → ℕ) (tr : List (System × Action)) (s : System) : Prop where
  hook : ∀ p m cs group, s.pc p = .onMailbox m cs (.hook group) → s.processes.tgid p = s.owner m
  scheduled : ∀ p m group, s.pc p = .startDeletion m group → Exited hash32 tr (s.owner m) m
  deletions : ∀ k d, s.deletions k = some d → Exited hash32 tr (s.owner d.mailbox) d.mailbox

theorem exitInvariant_initial : ExitInvariant hash32 [] (initial sig) where
  hook p m cs group h := by cases h
  scheduled p m group h := by cases h
  deletions k d h := by cases h

lemma hook_of_scheduled {n : ℕ} {k : Cont} {r : Ret MessagePtr} {group : Bool}
    (h : k.resume n r = .startDeletion m group) : k = .hook group ∧ n = m := by
  cases k with
  | hook group' =>
    cases h
    exact ⟨rfl,rfl⟩
  | claimed fresh c =>
    cases fresh with
    | true => exact absurd h (begin_ne c rfl)
    | false => cases h
  | removed ptrs => cases r <;> cases h
  | _ => cases h

/-- A deletion thread keeps the mailbox it was started with. -/
lemma deletions_cases (h : Stepped hash32 s act s') {k : ℕ} {d : DeletionThread}
    (deletion : s'.deletions k = some d) : (∃ d', s.deletions k = some d' ∧ d'.mailbox = d.mailbox) ∨
      ∃ p group, s.pc p = .startDeletion d.mailbox group := by
  have hset : ∀ {j m pc pc'}, s.deletions j = some ⟨m,pc⟩ →
      s'.deletions = Function.update s.deletions j (some ⟨m,pc'⟩) →
      ∃ d', s.deletions k = some d' ∧ d'.mailbox = d.mailbox := by
    intro j m pc pc' hold hnew
    rw [hnew] at deletion
    by_cases hk : k = j
    · subst k
      rw [Function.update_self] at deletion
      cases deletion
      exact ⟨_,hold,rfl⟩
    · rw [Function.update_of_ne hk] at deletion
      exact ⟨d,deletion,rfl⟩
  cases h with
  | ownerRead hold | exited hold | unlinked hold | destroyStays hold | flushed hold | deleted hold =>
    exact .inl (hset hold rfl)
  | @deletionStarted p o m group pc =>
    have hnew : Function.update s.deletions s.deletionsStarted (some ⟨m,.start⟩) k = some d := deletion
    by_cases hk : k = s.deletionsStarted
    · subst k
      rw [Function.update_self] at hnew
      cases hnew
      exact .inr ⟨p,group,pc⟩
    · rw [Function.update_of_ne hk] at hnew
      exact .inl ⟨d,hnew,rfl⟩
  | _ => exact .inl ⟨d,deletion,rfl⟩

theorem ExitInvariant.stepped (inv : ExitInvariant hash32 tr s) (hc : Consistent hash32 s)
    (bounds : InBounds s) (own : s'.RemovesOwn) (h : Stepped hash32 s act s') :
    ExitInvariant hash32 (tr ++ [(s,act)]) s' where
  hook p m cs group hpc := by
    have hremoves : (s'.pc p).RemovesMailbox m := by
      rw [hpc]
      rfl
    exact Processes.tgid_of_group (own p m hremoves)
  scheduled p m group hpc := by
    cases h.taskStep p with
    | rests moves pc =>
      rw [pc] at hpc
      rw [owner_stepped h (bounds.tasks p m (by rw [hpc]; rfl))]
      exact (inv.scheduled p m group hpc).mono _
    | @returned o n cs k r action pc locked next =>
      rw [next] at hpc
      obtain ⟨rfl,rfl⟩ := hook_of_scheduled hpc
      have hfits := hc.fits p
      rw [pc] at hfits
      obtain rfl : cs = .stop (exitingFlag ||| stoppedFlag) := hfits
      subst action
      refine ⟨(s,.run p o),by simp,p,?_,?_⟩
      · rw [owner_stepped h (bounds.tasks p n (by rw [pc]; rfl))]
        exact inv.hook p n _ group pc
      · have hdone := locked.2.once_ok (.inr (.inr ⟨_,rfl⟩))
        rw [hdone] at locked
        rw [events_section pc locked]
        simp [Progress.effect]
    | granted _ _ _ next =>
      rw [next] at hpc
      exact absurd hpc (begin_ne _ rfl)
    | ends _ next _ off | exiting _ next _ _ off =>
      rw [← next,hpc] at off
      cases off
    | countCopied _ _ _ next =>
      rw [next] at hpc
      split at hpc <;> cases hpc
    | arrives _ next | leaves _ next | enters _ _ next | valid _ _ _ next | invalid _ _ next
    | found _ _ _ next | created _ _ _ _ _ next | outOfMemory _ _ next | refused _ _ _ next
    | messageCreated _ _ _ next | messageFailed _ _ _ next | countFault _ _ _ next
    | copied _ _ _ next | copyFault _ _ _ next | destroyed _ _ _ next | stays _ _ _ _ next
    | removalFound _ _ _ next =>
      rw [next] at hpc
      cases hpc
  deletions k d hd := by
    rcases deletions_cases h hd with ⟨d',hd',hm⟩ | ⟨p,group,hpc⟩
    · rw [← hm,owner_stepped h (bounds.deletions k d' hd')]
      exact (inv.deletions k d' hd').mono _
    · rw [owner_stepped h (bounds.tasks p d.mailbox (by rw [hpc]; rfl))]
      exact (inv.scheduled p d.mailbox group hpc).mono _

theorem exitInvariant_of_run (h : Run (step hash32) (initial sig) tr s) :
    ExitInvariant hash32 tr s := by
  refine h.history_invariant exitInvariant_initial ?_
  intro tr s act s' prior inv taken
  exact inv.stepped (consistent_of_run prior) (inBounds_of_run prior)
    (removesOwn_of_run (prior.snoc taken)) (step_stepped taken)

/-- What a section can do to its mailbox. -/
lemma effect_cases {cs : CallState MessagePtr} {pr : Progress MessagePtr} {e : Effect}
    (h : pr.effect m cs = some e) :
    (∃ en, pr = .returned (.message en) ∧ e = .pop m (.ofEntry m en)) ∨
      pr = .returned (.code .ok) ∧ (Progress.returned (.code .ok)).effect m cs = some e := by
  unfold Progress.effect at h
  split at h
  · next en =>
    cases h
    exact .inl ⟨en,rfl,rfl⟩
  · exact .inr ⟨rfl,h⟩
  · cases h

lemma done_of_adding {cs : CallState MessagePtr} {e : Effect} {x : MessagePtr} {head : Bool}
    (h : (Progress.returned (.code .ok)).effect m cs = some e) (adding : cs.adding = some (x,head)) :
    e = .push m x head := by
  cases cs <;> cases adding <;> cases h <;> rfl

lemma entitled_outside {o : Oracle} {e : Effect} (outside : ∀ m cs k, s.pc p ≠ .onMailbox m cs k)
    (h : s.effect hash32 p (.run p o) = some e) : Entitled hash32 tr s (.did p e) := by
  simp only [effect,if_true] at h
  split at h
  · split_ifs at h
    cases h
    trivial
  · next m cs k hpc => exact absurd hpc (outside m cs k)
  · split at h
    · cases h
      trivial
    · cases h
  · cases h
    trivial
  · cases h

lemma refusal_eq {e : Event} (h : s.refusal p = some e) : ∃ m op reason, e = .refused p m op reason := by
  unfold refusal at h
  split at h
  · next m cs k hpc =>
    unfold Progress.refusal at h
    split at h
    · split at h
      · next op reason _ _ =>
        cases h
        exact ⟨m,op,reason,rfl⟩
      · cases h
    · cases h
  · cases h

/-- What a task does in a mailbox function, it is entitled to. -/
lemma entitled_section {cs : CallState MessagePtr} {k : Cont}
    {m' : Mailbox Actor MessagePtr} {pr : Progress MessagePtr} {e : Effect}
    (h : Run (step hash32) (initial sig) tr s) (pc : s.pc p = .onMailbox m cs k)
    (locked : s.Section (.task p) m cs m' pr) (effect : pr.effect m cs = some e) :
    Entitled hash32 tr s (.did p e) := by
  have hfits := (consistent_of_run h).fits p
  rw [pc] at hfits
  -- the call that the task is in, with the owner of the mailbox as its process
  have hcall : (Pc.onMailbox m cs k).inCall = true → ∃ i c, callOf p tr = some (i,c) ∧
      s.owner m = s.key p c ∧ k.Serves cs c := by
    intro hbusy
    obtain ⟨i,c,hcall,hserves⟩ := (callInvariant_of_run h).serves p (by rw [pc]; exact hbusy)
    rw [pc] at hserves
    obtain ⟨howner,hk⟩ := serves_onMailbox hbusy hserves
    exact ⟨i,c,hcall,howner,hk⟩
  rcases effect_cases effect with ⟨en,rfl,rfl⟩ | ⟨rfl,hdone⟩
  · have hremoves := locked.2.removes
    obtain ⟨ptrs,rfl⟩ := hfits.removed hremoves
    obtain ⟨i,c,hcall,howner,block,rfl,-⟩ := hcall rfl
    exact ⟨howner.symm,i,ptrs,block,hcall⟩
  · cases k with
    | claimed | refused | unclaimed | delivered =>
      cases hfits
      cases hdone
      trivial
    | added =>
      obtain ⟨x,hadding⟩ := hfits
      obtain ⟨i,c,hcall,howner,dest,len,block,rfl,-⟩ := hcall rfl
      obtain rfl := done_of_adding hdone hadding
      exact ⟨i,len,block,by rw [howner]; exact hcall⟩
    | putBack =>
      obtain ⟨x,hadding⟩ := hfits
      obtain ⟨i,c,hcall,howner,ptrs,block,rfl⟩ := hcall rfl
      obtain rfl := done_of_adding hdone hadding
      exact ⟨howner.symm,i,ptrs,block,hcall⟩
    | removed ptrs => rcases hfits with ⟨block,rfl⟩ | rfl <;> cases hdone
    | stopped =>
      cases hfits
      cases hdone
      obtain ⟨i,c,hcall,howner,count,rfl⟩ := hcall rfl
      exact ⟨howner.symm,.inl ⟨rfl,i,count,hcall⟩⟩
    | hook group =>
      cases hfits
      cases hdone
      refine ⟨(exitInvariant_of_run h).hook p m _ group pc,.inr ⟨rfl,?_⟩⟩
      rw [pc]
      rfl

/-- Nothing happens to a mailbox that the one who does it is not entitled to. -/
theorem only_owner_consumes (h : Run (step hash32) (initial sig) (before ++ (s,act) :: after) s') :
    ∀ e ∈ s.events hash32 act, Entitled hash32 before s e := by
  obtain ⟨t,hbefore,htaken,-⟩ := h.split_at
  have hs := step_stepped htaken
  intro e he
  cases act with
  | run p o =>
    rcases List.mem_append.mp he with he | he
    · obtain ⟨x,hx,rfl⟩ := Option.map_eq_some_iff.mp (Option.mem_toList.mp he)
      by_cases hin : ∃ m cs k, s.pc p = .onMailbox m cs k
      · obtain ⟨m,cs,k,hpc⟩ := hin
        obtain ⟨pr,hlocked⟩ := hs.section_of_running (running_eq rfl (call_task hpc))
        rw [effect_section hpc hlocked] at hx
        exact entitled_section hbefore hpc hlocked hx
      · exact entitled_outside (fun m cs k hpc => hin ⟨m,cs,k,hpc⟩) hx
    · have hrefused := refusal_eq (Option.mem_toList.mp he)
      obtain ⟨m,op,reason,rfl⟩ := hrefused
      trivial
  | runDeletion k o =>
    have hinv := (exitInvariant_of_run hbefore).deletions k
    simp only [events] at he
    split at he
    · cases List.mem_singleton.mp he
      trivial
    · next m cs hdeletion =>
      have hexited := hinv _ hdeletion
      split at he
      · cases List.mem_singleton.mp he
        exact hexited
      · cases List.mem_singleton.mp he
        exact hexited
      · cases he
    · cases he
  | _ => cases he

/-- A thread of process 1001 takes a message that 1002 has sent to it. -/
theorem only_owner_consumes_after_send :
    ∃ (tr : List (System × Action)) (s : System) (act : Action) (s' : System),
      Run (step goldenHash32) (initial fun _ => false) (tr ++ [(s,act)]) s' ∧
      .did 1003 (.pop 0 (.object 0)) ∈ s.events goldenHash32 act ∧
      s.processes.tgid 1003 = 1001 ∧ s.owner 0 = 1001 ∧
      ∀ e ∈ s.events goldenHash32 act, Entitled goldenHash32 tr s e := by
  obtain ⟨tr,s,hrun,htest⟩ := exists_run_of_execute (step goldenHash32) (initial fun _ => false)
    ([.newProcess 1001 1000,.clone 1001 1003,.newProcess 1002 1000,
        .enter 1002 (.sendMessage 1001 0 false)] ++ runs 1002 6 ++
      [.enter 1003 (.recieveMessage ⟨4,4,4⟩ false)] ++ runs 1003 4)
    (fun _ s => decide (.did 1003 (.pop 0 (.object 0)) ∈ s.events goldenHash32 (.run 1003 .clear) ∧
      s.processes.tgid 1003 = 1001 ∧ s.owner 0 = 1001) &&
      (step goldenHash32 s (.run 1003 .clear)).isSome) (by decide +kernel)
  rw [Bool.and_eq_true] at htest
  obtain ⟨hend,htaken⟩ := htest
  obtain ⟨hpop,htgid,howner⟩ := of_decide_eq_true hend
  obtain ⟨s',hs'⟩ := Option.isSome_iff_exists.mp htaken
  have hafter := hrun.snoc hs'
  exact ⟨tr,s,.run 1003 .clear,s',hafter,hpop,htgid,howner,only_owner_consumes hafter⟩

end System
end ProcessMessagePassing
