import ProcessMessagePassing.Kernel.Registry

/-! How often a mailbox is destroyed. `remove_mailbox_for_pid` leaves the mailbox in the table
until its deletion thread runs, so a second call may find it again and start a second thread. -/
namespace ProcessMessagePassing
open Concurrency HashTable
open Concurrency.Registry (Role Phase)

/-- The task has found the mailbox in `remove_mailbox_for_pid` and not started its deletion. -/
def Pc.RemovesMailbox (m : ℕ) : Pc → Prop
  | .onMailbox n _ (.hook _) => n = m
  | .startDeletion n _ => n = m
  | _ => False

lemma Pc.removesMailbox_iff (m : ℕ) (c : Pc) : c.RemovesMailbox m ↔ c.role.Retires m := by
  cases c with
  | onMailbox n cs k => cases k <;> rfl
  | _ => rfl

namespace System
variable {hash32 : Pid → ℕ} {sig : Actor → Bool} {s s' : System} {act : Action}
  {tr : List (System × Action)}

/-- A removal of the mailbox has found it, or its deletion thread has been started. -/
def DeletionUnderway (s : System) (m : ℕ) : Prop :=
  (∃ p, (s.pc p).RemovesMailbox m) ∨ ∃ k d, s.deletions k = some d ∧ d.mailbox = m

/-- The action is a `remove_mailbox_for_pid` that finds a mailbox whose deletion is under way. -/
def RemovesAgain (hash32 : Pid → ℕ) (s : System) (act : Action) : Prop :=
  ∃ m, RemovalFinds hash32 s act m ∧ s.DeletionUnderway m

/-- No mailbox has two deletion threads, none has been freed twice, and a deletion thread whose
mailbox has been freed is done. -/
structure DeletesOnce (s : System) : Prop where
  threads : ∀ k k' d d', s.deletions k = some d → s.deletions k' = some d' →
    d.mailbox = d'.mailbox → k = k'
  frees : ∀ m, (s.mailboxes m).frees ≤ 1
  done : ∀ k d, s.deletions k = some d → (s.mailboxes d.mailbox).frees ≠ 0 → d.pc = .done

lemma registry_underway {m : ℕ} (h : s.registry.Underway m) : s.DeletionUnderway m := by
  rcases h with ⟨p,hp⟩ | ⟨k,ph,hk⟩
  · exact .inl ⟨p,(Pc.removesMailbox_iff m (s.pc p)).mpr hp⟩
  · obtain ⟨d,hd,hr⟩ := Option.map_eq_some_iff.mp hk
    exact .inr ⟨k,d,hd,congrArg Prod.fst hr⟩

lemma phase_done {pc : DeletionPc} (h : pc.phase = .done) : pc = .done := by
  cases pc with
  | done => rfl
  | destroying cs => cases cs <;> cases h
  | _ => cases h

theorem deletesOnce_of_registry (h : Registry.Once s.registry) : DeletesOnce s where
  threads k k' d d' hd hd' hm := by
    have hr : s.registry.retirer k = some (d.mailbox,d.pc.phase) :=
      congrArg (Option.map DeletionThread.retirer) hd
    have hr' : s.registry.retirer k' = some (d'.mailbox,d'.pc.phase) :=
      congrArg (Option.map DeletionThread.retirer) hd'
    rw [← hm] at hr'
    exact h.retirers hr hr'
  frees := h.frees_le
  done k d hd hf := phase_done (h.freed hf (congrArg (Option.map DeletionThread.retirer) hd))

lemma underway_registry {m : ℕ} (h : s.DeletionUnderway m) : s.registry.Underway m := by
  rcases h with ⟨p,hp⟩ | ⟨k,d,hd,rfl⟩
  · exact .inl ⟨p,(Pc.removesMailbox_iff m (s.pc p)).mp hp⟩
  · exact .inr ⟨k,d.pc.phase,congrArg (Option.map DeletionThread.retirer) hd⟩

/-- A deletion gets under way only where a removal finds the mailbox. -/
lemma underway_stepped (h : Consistent hash32 s) (hs : Stepped hash32 s act s') {m : ℕ}
    (hu : s'.DeletionUnderway m) : s.DeletionUnderway m ∨ RemovalFinds hash32 s act m := by
  have hstep : s'.registry = s.registry ∨
      Registry.Step False (fun _ n => RemovalFinds hash32 s act n) s.registry s'.registry :=
    registry_stepped h False.elim hs fun _ hm => hm
  have hu' := underway_registry hu
  rcases hstep with he | hstep
  · rw [he] at hu'
    exact .inl (registry_underway hu')
  · rcases hu' with ⟨p,hp⟩ | ⟨k,ph,hk⟩
    · rcases hstep.retires_cases hp with hp | ⟨hm,-⟩
      · exact .inl (registry_underway (.inl ⟨p,hp⟩))
      · exact .inr hm
    · rcases hstep.retirer_cases hk with ⟨ph',hk⟩ | ⟨-,-,p,hp,-⟩
      · exact .inl (registry_underway (.inr ⟨k,ph',hk⟩))
      · exact .inl (registry_underway (.inl ⟨p,hp⟩))

theorem removal_of_underway (h : Run (step hash32) (initial sig) tr s) {m : ℕ}
    (hu : s.DeletionUnderway m) : ∃ x ∈ tr, RemovalFinds hash32 x.1 x.2 m := by
  induction h with
  | refl =>
    rcases hu with ⟨p,hp⟩ | ⟨k,d,hd,-⟩
    · exact False.elim hp
    · cases hd
  | @snoc tr s act s' prior taken ih =>
    rcases underway_stepped (consistent_of_run prior) (step_stepped taken) hu with hu | hm
    · obtain ⟨x,hx,hxm⟩ := ih hu
      exact ⟨x,List.mem_append_left _ hx,hxm⟩
    · exact ⟨(s,act),by simp,hm⟩

/-- The parts of the system that the count of deletions rests on. -/
structure DeletionInvariant (hash32 : Pid → ℕ) (s : System) : Prop where
  consistent : Consistent hash32 s
  coherent : Registry.Coherent s.registry
  once : Registry.Once s.registry

theorem deletionInvariant_initial : DeletionInvariant hash32 (initial sig) where
  consistent := consistent_initial sig
  coherent := .empty (fun _ ⟨_,h⟩ => by cases h) (fun _ => rfl) (fun _ => rfl) (fun _ => rfl)
  once := .empty (fun _ => rfl) (fun _ => rfl) (fun _ => rfl)

lemma coherent_stepped (hc : Consistent hash32 s) (coherent : Registry.Coherent s.registry)
    (hs : Stepped hash32 s act s') : Registry.Coherent s'.registry := by
  have hstep : s'.registry = s.registry ∨
      Registry.Step False (fun _ _ => True) s.registry s'.registry :=
    registry_stepped hc False.elim hs fun _ _ => trivial
  rcases hstep with he | hstep
  · rw [he]
    exact coherent
  · exact coherent.step hstep

theorem coherent_of_run (h : Run (step hash32) (initial sig) tr s) :
    Registry.Coherent s.registry := by
  induction h with
  | refl =>
    have hinit : DeletionInvariant hash32 (initial sig) := deletionInvariant_initial
    exact hinit.coherent
  | snoc prior taken ih => exact coherent_stepped (consistent_of_run prior) ih (step_stepped taken)

theorem DeletionInvariant.stepped (h : DeletionInvariant hash32 s)
    (single : ¬ RemovesAgain hash32 s act) (hs : Stepped hash32 s act s') :
    DeletionInvariant hash32 s' := by
  have hconsistent := h.consistent.stepped hs
  -- deletion threads may be interrupted here, so they are not patient
  have hstep : s'.registry = s.registry ∨
      Registry.Step False Registry.State.Fresh s.registry s'.registry :=
    registry_stepped h.consistent False.elim hs fun m hm hu =>
      single ⟨m,hm,registry_underway hu⟩
  rcases hstep with he | hstep
  · exact ⟨hconsistent,he ▸ h.coherent,he ▸ h.once⟩
  · exact ⟨hconsistent,h.coherent.step hstep,h.once.step h.coherent hstep⟩

/-- In every run in which no removal finds a mailbox whose deletion is under way, every mailbox
is deleted once at most. -/
theorem deletesOnce_of_single_removal (h : Run (step hash32) (initial sig) tr s)
    (single : ∀ x ∈ tr, ¬ RemovesAgain hash32 x.1 x.2) : DeletesOnce s := by
  have hinv : DeletionInvariant hash32 s :=
    h.invariant_of_guard deletionInvariant_initial
      (fun _ _ _ hs hc ht => hs.stepped hc (step_stepped ht)) single
  exact deletesOnce_of_registry hinv.once

/-- The action takes a task into `remove_mailbox_for_pid`. -/
def isRemoval (x : System × Action) : Bool :=
  match x.2 with
  | .run p _ =>
    match x.1.pc p with
    | .removeLookup _ => true
    | _ => false
  | _ => false

lemma RemovalFinds.isRemoval {m : ℕ} (h : RemovalFinds hash32 s act m) :
    isRemoval (s,act) = true := by
  obtain ⟨p,o,group,rfl,hpc,-⟩ := h
  simp [System.isRemoval,hpc]

/-- With one removal in the whole run, none comes again. -/
lemma single_of_length (h : Run (step hash32) (initial sig) tr s)
    (one : (tr.filter isRemoval).length ≤ 1) : ∀ x ∈ tr, ¬ RemovesAgain hash32 x.1 x.2 := by
  rintro x hx ⟨m,hm,hu⟩
  obtain ⟨before,after,t,rfl,hbefore,-,-⟩ := h.split hx
  obtain ⟨y,hy,hym⟩ := removal_of_underway hbefore hu
  rw [List.filter_append,List.filter_cons,if_pos hm.isRemoval,List.length_append,
    List.length_cons] at one
  have hpos := List.length_pos_of_mem (List.mem_filter.mpr ⟨hy,hym.isRemoval⟩)
  omega

/-- Process 1001 sends itself a message and exits, and its mailbox is deleted. -/
theorem deletesOnce_after_exit : ∃ (tr : List (System × Action)) (s : System),
    Run (step goldenHash32) (initial fun _ => false) tr s ∧ (s.mailboxes 0).frees = 1 ∧
      DeletesOnce s := by
  obtain ⟨tr,s,hrun,htest⟩ := exists_run_of_execute (step goldenHash32) (initial fun _ => false)
    ([.newProcess 1001 1000,.enter 1001 (.sendMessage 1001 0 false)] ++ runs 1001 6 ++
      [.exitGroup 1001] ++ runs 1001 4 ++ runsDeletion 0 7)
    (fun tr s => decide ((s.mailboxes 0).frees = 1 ∧ (tr.filter isRemoval).length ≤ 1))
    (by decide +kernel)
  obtain ⟨hfrees,hone⟩ := of_decide_eq_true htest
  exact ⟨tr,s,hrun,hfrees,deletesOnce_of_single_removal hrun (single_of_length hrun hone)⟩

/-- Two threads of process 1001 run `exit_group` at once: both find the mailbox, and both
deletion threads destroy and free it. -/
theorem exists_double_free : ∃ (tr : List (System × Action)) (s : System),
    Run (step goldenHash32) (initial fun _ => false) tr s ∧ ¬ DeletesOnce s := by
  obtain ⟨tr,s,hrun,htest⟩ := exists_run_of_execute (step goldenHash32) (initial fun _ => false)
    ([.newProcess 1001 1000,.clone 1001 1002,.enter 1001 (.sendMessage 1001 0 false)] ++
      runs 1001 6 ++ [.exitGroup 1001,.exitGroup 1002] ++ runs 1001 3 ++ runs 1002 3 ++
      runs 1001 1 ++ runsDeletion 0 7 ++ runsDeletion 1 7)
    (fun _ s => decide ((s.mailboxes 0).frees = 2)) (by decide +kernel)
  refine ⟨tr,s,hrun,fun h => ?_⟩
  have htwice : (s.mailboxes 0).frees = 2 := of_decide_eq_true htest
  have honce := h.frees 0
  omega

end System
end ProcessMessagePassing
