import ProcessMessagePassing.Kernel.Leak
import ProcessMessagePassing.Kernel.Orphan
import ProcessMessagePassing.Kernel.Rest

/-! What is left when the last task is gone. In runs that keep clear of the races of the exit hook
and lose no message, the deletion threads free every mailbox and every message there ever was, each
once, and empty the table. -/
namespace ProcessMessagePassing
open Concurrency HashTable

namespace System
variable {hash32 : Pid → ℕ} {sig : Actor → Bool} {s s' : System} {act : Action}
  {tr tr' : List (System × Action)} {m : ℕ} {p : Pid}

/-- No deletion thread is signalled or missing, a mailbox is made only for a process that has a
thread before its exit hook, no thread skips the removal of a mailbox that nobody else removes, none
is removed twice, and no add of a message is refused. -/
structure Proper (hash32 : Pid → ℕ) (s : System) (act : Action) : Prop where
  silent : act.signalsDeletion = false
  starts : act.startsThreads = true
  attended : ∀ p, s.creates hash32 act = some p → s.Attended p
  tidy : Tidy hash32 s act
  single : ¬ RemovesAgain hash32 s act
  accepts : ∀ n, s.refuses act ≠ some (.object n)

/-- Every task has ended. -/
def AllGone (s : System) : Prop := ∀ p, s.pc p = .absent ∨ s.pc p = .zombie

/-- Nothing is left of the mailboxes and the messages there have been. -/
structure Clean (s : System) : Prop where
  unlocked : s.tableLock = none
  table : ∀ m, ¬ s.table.Linked m
  mailboxes : ∀ m, m < s.mailboxesCreated → (s.mailboxes m).frees = 1
  messages : ∀ n, n < s.messages.created → s.messages.frees n = 1
  deletions : ∀ k d, s.deletions k = some d → d.pc = .done

/-- What holds of the mailboxes as long as none is removed twice. -/
structure TrackedInvariant (hash32 : Pid → ℕ) (s : System) : Prop extends
    DeletionInvariant hash32 s where
  tracked : Registry.Tracked s.registry

theorem trackedInvariant_initial : TrackedInvariant hash32 (initial sig) where
  toDeletionInvariant := deletionInvariant_initial
  tracked := .empty (fun _ ⟨_,h⟩ => by cases h) (fun _ => rfl) (fun _ => rfl) rfl

theorem TrackedInvariant.stepped (h : TrackedInvariant hash32 s)
    (single : ¬ RemovesAgain hash32 s act) (hs : Stepped hash32 s act s') :
    TrackedInvariant hash32 s' where
  toDeletionInvariant := h.toDeletionInvariant.stepped single hs
  tracked := by
    have hstep : s'.registry = s.registry ∨
        Registry.Step False Registry.State.Fresh s.registry s'.registry :=
      registry_stepped h.consistent False.elim hs fun m hm hu =>
        single ⟨m,hm,registry_underway hu⟩
    rcases hstep with he | hstep
    · exact he ▸ h.tracked
    · exact h.tracked.step h.coherent h.once hstep

theorem trackedInvariant_of_run (h : Run (step hash32) (initial sig) tr s)
    (single : ∀ x ∈ tr, ¬ RemovesAgain hash32 x.1 x.2) : TrackedInvariant hash32 s :=
  h.invariant_of_guard trackedInvariant_initial
    (fun _ _ _ hs hc ht => hs.stepped hc (step_stepped ht)) single

/-- No message is lost as long as none is refused. -/
theorem accounted_of_run (h : Run (step hash32) (initial sig) tr s)
    (accepts : ∀ x ∈ tr, ∀ n, x.1.refuses x.2 ≠ some (.object n)) :
    Custody.Accounted s.custody := by
  induction h with
  | refl => exact fun n hn => absurd hn.1 (Nat.not_lt_zero n)
  | @snoc tr t act t' prior taken ih =>
    apply accounted_stepped prior taken
    · exact accepts (t,act) (by simp)
    · exact ih fun x hx => accepts x (List.mem_append_left _ hx)

/-- Every mailbox belongs to a process that has been there. -/
theorem owners_born (h : Run (step hash32) (initial sig) tr s)
    (attended : ∀ x ∈ tr, ∀ p, x.1.creates hash32 x.2 = some p → x.1.Attended p) :
    ∀ m, m < s.mailboxesCreated → s.processes.births (s.owner m) ≠ 0 := by
  induction h with
  | refl => exact fun m hm => absurd hm (Nat.not_lt_zero m)
  | @snoc tr t act t' prior taken ih =>
    have hs := step_stepped taken
    have hold := ih fun x hx => attended x (List.mem_append_left _ hx)
    have hborn : ∀ p, t.processes.births p ≠ 0 → t'.processes.births p ≠ 0 := fun p hp =>
      Nat.ne_of_gt (Nat.lt_of_lt_of_le (Nat.pos_of_ne_zero hp) (births_le hs p))
    intro m hm
    by_cases hlt : m < t.mailboxesCreated
    · rw [owner_stepped hs hlt]
      exact hborn _ (hold m hlt)
    · cases hs with
      | @created p o pid c pc unlocked missing memory =>
        have hnew : m = t.mailboxesCreated :=
          Nat.le_antisymm (Nat.lt_succ_iff.mp hm) (Nat.not_lt.mp hlt)
        subst hnew
        have howner : (t.createMailbox hash32 p pid c).owner t.mailboxesCreated = pid :=
          owner_create_self t pid
        rw [howner]
        have hcreates : t.creates hash32 (.run p o) = some pid :=
          creates_eq_some_iff.mpr ⟨p,o,c,rfl,pc,missing,memory⟩
        obtain ⟨q,hq,-⟩ := attended _ (List.mem_append_right _ (List.mem_singleton.mpr rfl)) pid hcreates
        exact (threadInvariant_of_run prior).born q pid hq
      | _ => exact absurd hm hlt

lemma AllGone.invalid (gone : s.AllGone) (inv : ThreadInvariant s) (pid : Pid) :
    s.processes.isProcessValid pid = false := by
  unfold Processes.isProcessValid
  cases htask : s.processes.task pid with
  | none => rfl
  | some task =>
    have hpc : s.pc pid = .zombie := by
      rcases gone pid with habsent | hzombie
      · have hnone := Processes.group_eq_none.mp ((inv.present pid).mp habsent)
        rw [hnone] at htask
        cases htask
      · exact hzombie
    have hexiting : task.exiting = true := by
      rw [inv.exiting pid task htask,hpc]
      rfl
    simp [hexiting]

/-- Only the deletion threads go on. -/
lemma AllGone.runs_deletion (gone : s.AllGone) (works : s.Works act)
    (taken : step hash32 s act = some s') : ∃ k o, act = .runDeletion k o := by
  cases act with
  | run p o =>
    change s.runTask hash32 p o = some s' at taken
    unfold runTask at taken
    rcases gone p with hpc | hpc <;> rw [hpc] at taken <;> cases taken
  | runDeletion k o => exact ⟨k,o,rfl⟩
  | _ => cases works.1

lemma AllGone.stepped (gone : s.AllGone) (works : s.Works act)
    (taken : step hash32 s act = some s') : s'.AllGone := by
  obtain ⟨k,o,rfl⟩ := gone.runs_deletion works taken
  intro p
  have hrests : (Action.runDeletion k o).moves ≠ some p := by
    intro h
    cases h
  rw [(step_stepped taken).pc_of_ne hrests]
  exact gone p

/-- A step of a deletion thread is proper. -/
lemma proper_runDeletion (hc : Consistent hash32 s) (k : ℕ) (o : Oracle) :
    Proper hash32 s (.runDeletion k o) where
  silent := rfl
  starts := rfl
  attended p h := by cases h
  tidy := ⟨fun p h => (by cases h),fun p h => (by cases h)⟩
  single := by
    rintro ⟨m,⟨p,o',group,h,-⟩,-⟩
    cases h
  accepts n h := by
    obtain ⟨⟨a,m,cs⟩,hrun,hadd⟩ := Option.bind_eq_some_iff.mp h
    dsimp only at hadd
    obtain ⟨hactor,hcall⟩ := running_eq_some_iff.mp hrun
    cases hactor
    obtain ⟨d,hd,hdcall⟩ := Option.bind_eq_some_iff.mp hcall
    obtain rfl := d.call_eq hdcall
    have hdestroys : cs.Destroys := hc.destroys k _ hd
    split_ifs at hadd with hrefuses
    cases cs with
    | addMessage | addWaiting => exact hdestroys
    | _ => cases hrefuses

/-- The deletion threads work on their own from here, and every step of theirs is proper. -/
lemma AllGone.goes_on (h : Run (step hash32) (initial sig) tr s) (gone : s.AllGone)
    (run : Run (step hash32) s tr' s') (works : ∀ x ∈ tr', x.1.Works x.2) :
    s'.AllGone ∧ ∀ x ∈ tr', Proper hash32 x.1 x.2 := by
  induction run with
  | refl => exact ⟨gone,by simp⟩
  | @snoc tr' t act t' prior taken ih =>
    obtain ⟨hgone,hproper⟩ := ih fun x hx => works x (List.mem_append_left _ hx)
    have hwork : t.Works act := works (t,act) (by simp)
    refine ⟨hgone.stepped hwork taken,?_⟩
    intro x hx
    rcases List.mem_append.mp hx with hx | hx
    · exact hproper x hx
    · obtain rfl := List.mem_singleton.mp hx
      obtain ⟨k,o,rfl⟩ := hgone.runs_deletion hwork taken
      exact proper_runDeletion (consistent_of_run (h.append prior)) k o

/-- With everybody gone the deletion threads rest only when they are done. -/
lemma done_at_rest (h : Run (step hash32) (initial sig) tr s) (quiet : ∀ k, sig (.kthread k) = false)
    (proper : ∀ x ∈ tr, Proper hash32 x.1 x.2) (gone : s.AllGone)
    (rest : AtRest (step hash32) Works s) {k : ℕ} {d : DeletionThread}
    (deletion : s.deletions k = some d) : d.pc = .done := by
  have hstuck := nobodyStuck_of_rest h quiet (fun x hx => (proper x hx).silent) rest
  have hinv := trackedInvariant_of_run h fun x hx => (proper x hx).single
  have honce := deletesOnce_of_registry hinv.once
  rcases hstuck.deletions k d.mailbox d.pc deletion with hdone | ⟨pid,-,hvalid⟩ | ⟨-,hfreed⟩
  · exact hdone
  · rw [gone.invalid (threadInvariant_of_run h) pid] at hvalid
    cases hvalid
  · exact honce.done k d deletion hfreed

/-- With everybody gone and the deletion threads done, nothing is left. -/
theorem clean_at_rest (h : Run (step hash32) (initial sig) tr s) (quiet : ∀ k, sig (.kthread k) = false)
    (proper : ∀ x ∈ tr, Proper hash32 x.1 x.2) (gone : s.AllGone)
    (rest : AtRest (step hash32) Works s) : Clean s := by
  have hdone : ∀ k d, s.deletions k = some d → d.pc = .done := fun k d hd =>
    done_at_rest h quiet proper gone rest hd
  have hinv := trackedInvariant_of_run h fun x hx => (proper x hx).single
  have htidy := tidyInvariant_of_run h (fun x hx => (proper x hx).starts) fun x hx => (proper x hx).tidy
  have htable : ∀ m, ¬ s.table.Linked m := by
    intro m hlinked
    have hborn := owners_born h (fun x hx => (proper x hx).attended) m
      ((consistent_of_run h).linked_lt m hlinked)
    have hgone : s.Gone (s.owner m) := by
      refine ⟨hborn,fun q hq => (gone q).resolve_left fun habsent => ?_⟩
      have hnone := ((threadInvariant_of_run h).present q).mp habsent
      rw [hq] at hnone
      cases hnone
    obtain ⟨k,d,hd,-,hpending⟩ := htidy.deletionPending hlinked hgone
    rw [hdone k d hd] at hpending
    cases hpending
  have hfreed : ∀ m, m < s.mailboxesCreated → (s.mailboxes m).frees = 1 := by
    intro m hm
    rcases hinv.tracked.tracked hm with hlinked | ⟨k,ph,hr,-⟩
    · exact absurd hlinked (htable m)
    · obtain ⟨d,hd,hdr⟩ := Option.map_eq_some_iff.mp hr
      cases hdr
      have hphase : s.registry.retirer k = some (d.mailbox,.done) := by
        change (s.deletions k).map DeletionThread.retirer = _
        rw [hd,Option.map_some,DeletionThread.retirer,hdone k d hd]
        rfl
      have hne : (s.mailboxes d.mailbox).frees ≠ 0 := hinv.tracked.done hphase
      have hle : (s.mailboxes d.mailbox).frees ≤ 1 := hinv.once.frees_le d.mailbox
      omega
  refine ⟨?_,htable,hfreed,?_,hdone⟩
  · exact (nobodyStuck_of_rest h quiet (fun x hx => (proper x hx).silent) rest).unlocked
  · have hacc := accounted_of_run h fun x hx => (proper x hx).accepts
    have howned := (messagesOwned_iff_accounted h).mpr hacc
    have hidle : ∀ p, (s.pc p).inCall = false := by
      intro p
      rcases gone p with hpc | hpc <;> rw [hpc] <;> rfl
    intro n hn
    have hle := howned.freedOnce n
    by_contra hne
    have hlive : s.LiveMessage n := ⟨hn,by omega⟩
    obtain ⟨m,hm,hqueued⟩ := (howned.idle hidle n).mp hlive
    by_cases hcreated : m < s.mailboxesCreated
    · rw [hfreed m hcreated] at hm
      cases hm
    · rw [uncreated_of_run h m (Nat.not_lt.mp hcreated)] at hqueued
      cases hqueued

/-- Once every task of a proper run is gone, the deletion threads bring the system to rest, and
wherever it comes to rest nothing is left of the mailboxes and the messages. -/
theorem shuts_down_clean (h : Run (step hash32) (initial sig) tr s)
    (quiet : ∀ k, sig (.kthread k) = false) (proper : ∀ x ∈ tr, Proper hash32 x.1 x.2)
    (gone : s.AllGone) :
    (∃ tr' s', Run (step hash32) s tr' s' ∧ (∀ x ∈ tr', x.1.Works x.2) ∧
      AtRest (step hash32) Works s') ∧
    ∀ tr' s', Run (step hash32) s tr' s' → (∀ x ∈ tr', x.1.Works x.2) →
      AtRest (step hash32) Works s' → Clean s' := by
  refine ⟨(settles hash32).comes_to_rest (bounded_of_run h),fun tr' s' run works rest => ?_⟩
  obtain ⟨hgone,hproper⟩ := gone.goes_on h run works
  refine clean_at_rest (h.append run) quiet ?_ hgone rest
  intro x hx
  rcases List.mem_append.mp hx with hx | hx
  · exact proper x hx
  · exact hproper x hx

/-- Process 1001 sends itself a message and exits without receiving it. -/
theorem shuts_down_clean_after_exit : ∃ (tr tr' : List (System × Action)) (s s' : System),
    Run (step goldenHash32) (initial fun _ => false) tr s ∧ s.table.Linked 0 ∧
      (s.mailboxes 0).messages ≠ [] ∧ Run (step goldenHash32) s tr' s' ∧ Clean s' := by
  obtain ⟨tr,s,hrun,htest⟩ := exists_run_of_execute (step goldenHash32) (initial fun _ => false)
    ([.newProcess 1001 1000,.enter 1001 (.sendMessage 1001 0 false)] ++ runs 1001 6 ++
      [.exit 1001] ++ runs 1001 7)
    (fun tr s => tr.all (fun x => !x.2.signalsDeletion && x.2.startsThreads &&
        decide (x.1.refuses x.2 = none) && decide (x.2.moves = some 1001) &&
        decide ((x.1.creates goldenHash32 x.2 = none ∧ x.1.skipsRemoval x.2 = none) ∨
          x.1.processes.group 1001 = some 1001 ∧ (x.1.pc 1001).beforeHook = true ∧
            (x.1.creates goldenHash32 x.2).all (fun r => decide (r = 1001)) = true ∧
            (x.1.skipsRemoval x.2).all
              (fun r => decide (r ≠ 1001 ∧ x.1.processes.tgid r = 1001)) = true)) &&
      decide ((tr.filter isRemoval).length ≤ 1) &&
      decide (s.get goldenHash32 1001 = some 0 ∧ s.pc 1001 = .zombie ∧ (s.mailboxes 0).messages ≠ []))
    (by decide +kernel)
  simp only [Bool.and_eq_true,List.all_eq_true,Bool.not_eq_true'] at htest
  obtain ⟨⟨hall,hremovals⟩,hend⟩ := htest
  obtain ⟨hfound,hzombie,hmessages⟩ := of_decide_eq_true hend
  have hsingle := single_of_length hrun (of_decide_eq_true hremovals)
  have hproper : ∀ x ∈ tr, Proper goldenHash32 x.1 x.2 := by
    intro x hx
    obtain ⟨⟨⟨⟨hsilent,hstarts⟩,haccepts⟩,-⟩,htidy⟩ := hall x hx
    refine ⟨hsilent,hstarts,?_,tidy_of_attending 1001 1001 (of_decide_eq_true htidy),hsingle x hx,?_⟩
    · intro p hp
      rcases of_decide_eq_true htidy with ⟨hnone,-⟩ | ⟨hgroup,hbefore,hcreates,-⟩
      · rw [hnone] at hp
        cases hp
      · rw [hp] at hcreates
        obtain rfl : p = 1001 := of_decide_eq_true hcreates
        exact ⟨1001,hgroup,hbefore⟩
    · intro n
      rw [of_decide_eq_true haccepts]
      exact (Option.some_ne_none _).symm
  have hgone : s.AllGone := by
    intro p
    by_cases hp : p = 1001
    · exact .inr (hp ▸ hzombie)
    · left
      refine pc_of_run hrun fun x hx => ?_
      rw [of_decide_eq_true (hall x hx).1.2]
      exact fun he => hp (Option.some.inj he).symm
  obtain ⟨⟨tr',s',hrun',hworks,hrest⟩,hclean⟩ := shuts_down_clean hrun (fun _ => rfl) hproper hgone
  exact ⟨tr,tr',s,s',hrun,(linked_of_get hfound).1,hmessages,hrun',
    hclean tr' s' hrun' hworks hrest⟩

end System
end ProcessMessagePassing
