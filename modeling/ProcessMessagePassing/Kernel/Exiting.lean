import ProcessMessagePassing.Kernel.Projection
import ProcessMessagePassing.Kernel.Registry

/-! The `EXITING` bit of a mailbox. `__mailbox_stop` overwrites the whole field, so a
`mailbox_stop` that comes after `mailbox_exiting` takes the bit away again. -/
namespace ProcessMessagePassing.System
open Concurrency HashTable

variable {hash32 : Pid → ℕ} {sig : Actor → Bool} {s s' : System} {act : Action}
  {tr : List (System × Action)} {a : Actor} {m : ℕ} {cs : CallState MessagePtr}

/-- `mailbox->stopped & EXITING` -/
def Exiting (s : System) (m : ℕ) : Prop := (s.mailboxes m).stopped &&& exitingFlag ≠ 0

instance (s : System) (m : ℕ) : Decidable (s.Exiting m) := inferInstanceAs (Decidable (_ ≠ _))

/-- The action runs the write of `mailbox_stop` on a mailbox that is exiting. -/
def overwritesExiting (s : System) (act : Action) : Bool :=
  (s.running act).any fun (_,m,cs) => decide (cs = .stop stoppedFlag ∧ s.Exiting m)

/-- With this step a `get_mailbox_for_pid` returns zero and hands out the mailbox. -/
def GetsMailbox (s : System) (act : Action) (s' : System) (m : ℕ) : Prop :=
  ∃ p o c, act = .run p o ∧
    (s.pc p = .checkExiting m c ∨ ∃ cs, s.pc p = .onMailbox m cs (.claimed true c)) ∧
    s'.pc p = c.begin m

/-- A mailbox that is exiting stays so, and no lookup hands it out. -/
structure ExitingPermanent (hash32 : Pid → ℕ) (tr : List (System × Action)) (s : System) :
    Prop where
  kept : (tr.map Prod.fst ++ [s]).Pairwise fun t t' => ∀ m, t.Exiting m → t'.Exiting m
  refused : ∀ x ∈ tr, ∀ t, step hash32 x.1 x.2 = some t → ∀ m, GetsMailbox x.1 x.2 t m →
    ¬ x.1.Exiting m

lemma not_exiting_zero : ¬ 0 &&& exitingFlag ≠ 0 := by decide

lemma not_exiting_stopped : ¬ stoppedFlag &&& exitingFlag ≠ 0 := by decide

lemma exiting_of_status : (exitingFlag ||| stoppedFlag) &&& exitingFlag ≠ 0 := by decide

/-- Who writes `stopped` is in `mailbox_stop`, or the end of the mailbox is under way. -/
lemma Consistent.status_cases (h : Consistent hash32 s) (called : s.call a = some (m,cs))
    {st : ℕ} (writes : Mailbox.writesStopped cs = some st) :
    cs = .stop stoppedFlag ∨ st = exitingFlag ||| stoppedFlag ∧ s.registry.Underway m := by
  cases a with
  | task p =>
    obtain ⟨k,hpc⟩ := Pc.call_eq called
    have hfits := h.fits p
    rw [hpc] at hfits
    cases k with
    | stopped => exact .inl hfits
    | hook group =>
      cases hfits
      cases writes
      refine .inr ⟨rfl,.inl ⟨p,?_⟩⟩
      change (s.pc p).role.Retires m
      rw [hpc]
      rfl
    | added | putBack =>
      obtain ⟨x,hx⟩ := hfits
      cases cs with
      | stop | destroy => cases hx
      | _ => cases writes
    | removed => rcases hfits with ⟨block,rfl⟩ | rfl <;> cases writes
    | claimed | refused | unclaimed | delivered => cases hfits; cases writes
  | kthread k =>
    obtain ⟨d,hd,hcall⟩ := Option.bind_eq_some_iff.mp called
    obtain rfl := d.call_eq hcall
    have hdestroys : cs.Destroys := h.destroys k _ hd
    cases cs with
    | destroy =>
      cases writes
      exact .inr ⟨rfl,.inr ⟨k,_,congrArg (Option.map DeletionThread.retirer) hd⟩⟩
    | stop => exact False.elim hdestroys
    | _ => cases writes

lemma Uncreated.not_exiting (h : Uncreated s) (new : s.mailboxesCreated ≤ m) : ¬ s.Exiting m := by
  rw [Exiting,h m new]
  exact not_exiting_zero

structure ExitingInvariant (hash32 : Pid → ℕ) (s : System) : Prop where
  consistent : Consistent hash32 s
  inBounds : InBounds s
  coherent : Registry.Coherent s.registry
  unshared : Registry.Unshared s.registry
  uncreated : Uncreated s
  fresh : ∀ p m, (s.pc p).role = .claiming m true → ¬ s.Exiting m

/-- A step without such an overwrite keeps the bit. -/
lemma ExitingInvariant.kept (h : ExitingInvariant hash32 s)
    (guard : s.overwritesExiting act = false) (hs : Stepped hash32 s act s')
    (exiting : s.Exiting m) : s'.Exiting m := by
  unfold Exiting
  cases hs.mailboxStep m with
  | same mailbox => exact mailbox ▸ exiting
  | created new => exact absurd exiting (h.uncreated.not_exiting (Nat.le_of_eq new.symm))
  | @run a cs pr running locked =>
    rw [locked.2.stopped_eq]
    cases hw : Mailbox.writesStopped cs with
    | none => exact exiting
    | some st =>
      rcases h.consistent.status_cases (running_eq_some_iff.mp running).2 hw with rfl | ⟨rfl,-⟩
      · simp [overwritesExiting,running,exiting] at guard
      · exact exiting_of_status

/-- A first claim was due before the step, or the mailbox has just been created. -/
lemma role_claiming_cases (h : Consistent hash32 s) (hs : Stepped hash32 s act s') {p : Pid}
    (hc : (s'.pc p).role = .claiming m true) :
    (s.pc p).role = .claiming m true ∨ m = s.mailboxesCreated := by
  have hstep : s'.registry = s.registry ∨
      Registry.Step False (fun _ _ => True) s.registry s'.registry :=
    registry_stepped h False.elim hs fun _ _ => trivial
  rcases hstep with he | hstep
  · left
    rw [← hc]
    exact (congrFun (congrArg Registry.State.role he) p).symm
  · rcases hstep.claiming_cases hc with hold | ⟨hm,-⟩
    · exact .inl hold
    · exact .inr hm

/-- No step sets the bit of a mailbox that was just created. -/
lemma ExitingInvariant.fresh_stepped (h : ExitingInvariant hash32 s)
    (hs : Stepped hash32 s act s') {p : Pid} (hc : (s'.pc p).role = .claiming m true) :
    ¬ s'.Exiting m := by
  have hold : ¬ s.Exiting m := by
    rcases role_claiming_cases h.consistent hs hc with hrole | rfl
    · exact h.fresh p m hrole
    · exact h.uncreated.not_exiting le_rfl
  unfold Exiting
  cases hs.mailboxStep m with
  | same mailbox => exact mailbox ▸ hold
  | created _ _ mailbox => exact mailbox ▸ not_exiting_zero
  | @run a cs pr running locked =>
    have hcalled := (running_eq_some_iff.mp running).2
    rw [locked.2.stopped_eq]
    cases hw : Mailbox.writesStopped cs with
    | none => exact hold
    | some st =>
      rcases h.consistent.status_cases hcalled hw with rfl | ⟨-,hunderway⟩
      · cases hw
        exact not_exiting_stopped
      · rcases role_claiming_cases h.consistent hs hc with hrole | rfl
        · exact absurd hunderway (h.unshared p m hrole)
        · exact absurd (h.inBounds.call_lt hcalled) (Nat.lt_irrefl _)

theorem exitingInvariant_initial : ExitingInvariant hash32 (initial sig) where
  consistent := consistent_initial sig
  inBounds := inBounds_initial
  coherent := .empty (fun _ ⟨_,h⟩ => by cases h) (fun _ => rfl) (fun _ => rfl) (fun _ => rfl)
  unshared i n h := by cases h
  uncreated m _ := rfl
  fresh p m h := by cases h

theorem ExitingInvariant.stepped (h : ExitingInvariant hash32 s) (hs : Stepped hash32 s act s') :
    ExitingInvariant hash32 s' := by
  have hstep : s'.registry = s.registry ∨
      Registry.Step False (fun _ _ => True) s.registry s'.registry :=
    registry_stepped h.consistent False.elim hs fun _ _ => trivial
  have hboth : Registry.Coherent s'.registry ∧ Registry.Unshared s'.registry := by
    rcases hstep with he | hstep
    · rw [he]
      exact ⟨h.coherent,h.unshared⟩
    · exact ⟨h.coherent.step hstep,h.unshared.step h.coherent hstep⟩
  exact
    { consistent := h.consistent.stepped hs
      inBounds := h.inBounds.stepped h.consistent hs
      coherent := hboth.1
      unshared := hboth.2
      uncreated := h.uncreated.stepped h.inBounds hs
      fresh := fun p m => h.fresh_stepped hs }

theorem exitingInvariant_of_run (h : Run (step hash32) (initial sig) tr s) :
    ExitingInvariant hash32 s :=
  h.invariant exitingInvariant_initial fun _ _ _ hs ht => hs.stepped (step_stepped ht)

/-- No lookup hands out a mailbox that is exiting. -/
lemma ExitingInvariant.refused (h : ExitingInvariant hash32 s) (ht : step hash32 s act = some s')
    (gets : GetsMailbox s act s' m) : ¬ s.Exiting m := by
  obtain ⟨p,o,c,rfl,hpc | ⟨cs,hpc⟩,hbegin⟩ := gets
  · intro hexiting
    have hrefused : s' = s.setPc p (.onMailbox m .unclaim .refused) := by
      have hrun : s.runTask hash32 p o = some s' := ht
      have hif : (s.mailboxes m).stopped &&& exitingFlag ≠ 0 := hexiting
      simp only [runTask,hpc,if_pos hif] at hrun
      exact (Option.some.inj hrun).symm
    rw [hrefused,setPc_pc,Function.update_self] at hbegin
    cases c <;> cases hbegin
  · exact h.fresh p m (congrArg Pc.role hpc)

/-- In a run `EXITING` is permanent exactly when no `mailbox_stop` writes to a mailbox that is
exiting. -/
theorem exitingPermanent_iff (h : Run (step hash32) (initial sig) tr s) :
    ExitingPermanent hash32 tr s ↔ ∀ x ∈ tr, x.1.overwritesExiting x.2 = false := by
  have hkept := h.pairwise_iff (R := fun t t' => ∀ m, t.Exiting m → t'.Exiting m)
    fun htu huv m hm => huv m (htu m hm)
  constructor
  · intro hpermanent x hx
    obtain ⟨t,ht,-⟩ := h.taken hx
    by_contra hoverwrites
    obtain ⟨⟨a,m,cs⟩,running,hstop⟩ :=
      (Option.any_eq_true _ _).mp (Bool.not_eq_false _ ▸ hoverwrites)
    obtain ⟨rfl,hexiting⟩ := of_decide_eq_true hstop
    obtain ⟨pr,locked⟩ := (step_stepped ht).section_of_running running
    have hcleared : (t.mailboxes m).stopped = stoppedFlag := locked.2.stopped_eq
    have hstill : t.Exiting m := hkept.mp hpermanent.kept x hx t ht m hexiting
    rw [Exiting,hcleared] at hstill
    exact absurd hstill (by decide)
  · intro hguard
    constructor
    · rw [hkept]
      intro x hx t ht m
      obtain ⟨before,after,u,-,hbefore,-,-⟩ := h.split hx
      exact (exitingInvariant_of_run hbefore).kept (hguard x hx) (step_stepped ht)
    · intro x hx t ht m
      obtain ⟨before,after,u,-,hbefore,-,-⟩ := h.split hx
      exact (exitingInvariant_of_run hbefore).refused ht

/-- Process 1001 stops its mailbox and exits; its second thread is refused the mailbox. -/
theorem exitingPermanent_after_exit : ∃ (tr : List (System × Action)) (s : System),
    Run (step goldenHash32) (initial fun _ => false) tr s ∧ ExitingPermanent goldenHash32 tr s ∧
      s.Exiting 0 := by
  obtain ⟨tr,s,hrun,htest⟩ := exists_run_of_execute (step goldenHash32) (initial fun _ => false)
    ([.newProcess 1001 1000,.clone 1001 1002,.enter 1001 (.manageMailbox true 4)] ++
      runs 1001 6 ++ [.exitGroup 1001] ++ runs 1001 3 ++
      [.enter 1002 (.sendMessage 1001 0 false)] ++ runs 1002 5)
    (fun tr s => tr.all (fun x => !x.1.overwritesExiting x.2) && decide (s.Exiting 0))
    (by decide +kernel)
  simp only [Bool.and_eq_true,decide_eq_true_eq,List.all_eq_true,Bool.not_eq_true'] at htest
  exact ⟨tr,s,hrun,(exitingPermanent_iff hrun).mpr htest.1,htest.2⟩

/-- Thread 1002 is about to stop the mailbox when thread 1001 ends the group. The stop takes the
bit away again. -/
theorem exists_exiting_cleared : ∃ (tr : List (System × Action)) (s : System),
    Run (step goldenHash32) (initial fun _ => false) tr s ∧ ¬ ExitingPermanent goldenHash32 tr s := by
  obtain ⟨tr,s,hrun,htest⟩ := exists_run_of_execute (step goldenHash32) (initial fun _ => false)
    ([.newProcess 1001 1000,.clone 1001 1002,.enter 1002 (.manageMailbox true 4)] ++
      runs 1002 4 ++ [.exitGroup 1001] ++ runs 1001 2 ++ runs 1002 1)
    (fun tr s => tr.any (fun x => decide (x.1.Exiting 0)) && decide (¬ s.Exiting 0))
    (by decide +kernel)
  simp only [Bool.and_eq_true,decide_eq_true_eq,List.any_eq_true] at htest
  obtain ⟨⟨x,hx,hset⟩,hcleared⟩ := htest
  refine ⟨tr,s,hrun,fun hpermanent => ?_⟩
  have hlater := (List.pairwise_append.mp hpermanent.kept).2.2 x.1 (List.mem_map_of_mem hx) s (by simp)
  exact hcleared (hlater 0 hset)

end ProcessMessagePassing.System
