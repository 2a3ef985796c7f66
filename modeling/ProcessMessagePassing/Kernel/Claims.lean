import ProcessMessagePassing.Kernel.Ownership
import ProcessMessagePassing.Kernel.Registry

/-! The claim protocol. As long as deletion threads get no signals, `dereferences` counts the
calls that have claimed a mailbox, and a mailbox that is freed is out of everybody's reach: but for
a receive that took the list head of the mailbox for a message, and frees it after its claim. -/
namespace ProcessMessagePassing
open Concurrency HashTable
open Concurrency.Registry (Role Phase)

/-- The call got the mailbox from `get_mailbox_for_pid`, or is in its check for `EXITING`, and
has not unclaimed it. -/
def Pc.HoldsClaim (m : ℕ) : Pc → Prop
  | .onMailbox _ _ (.claimed _ _) => False
  | .onMailbox _ _ (.hook _) => False
  | .onMailbox n _ _ => n = m
  | .checkExiting n _ => n = m
  | .createMessage n _ _ => n = m
  | .copyCount n _ _ => n = m
  | .copyToUser n _ _ => n = m
  | _ => False

/-- The task is in a function of the mailbox, or between two steps of a call that has claimed it. -/
def Pc.Uses (m : ℕ) : Pc → Prop
  | .onMailbox n _ _ => n = m
  | .checkExiting n _ => n = m
  | .createMessage n _ _ => n = m
  | .copyCount n _ _ => n = m
  | .copyToUser n _ _ => n = m
  | _ => False

/-- The next step of the task may read or write the mailbox. What `list_entry` makes of the list head
of a mailbox overlaps the mailbox, so `message_destroy` of it counts. -/
def Pc.Touches (m : ℕ) : Pc → Prop
  | .destroyMessage (.listHead n) => n = m
  | c => c.Uses m

/-- The action is a signal to a deletion thread. -/
def Action.signalsDeletion : Action → Bool
  | .signal (.kthread _) => true
  | _ => false

lemma Pc.holdsClaim_iff (m : ℕ) (c : Pc) : c.HoldsClaim m ↔ c.role.Holds m := by
  cases c with
  | onMailbox n cs k => cases k <;> rfl
  | _ => rfl

lemma Pc.Uses.role {m : ℕ} {c : Pc} (h : c.Uses m) : c.role.Uses m := by
  cases c with
  | onMailbox n cs k =>
    cases k with
    | claimed | hook => exact .inr h
    | _ => exact .inl h
  | checkExiting | createMessage | copyCount | copyToUser => exact .inl h
  | _ => exact False.elim h

lemma Pc.Touches.cases {m : ℕ} {c : Pc} (h : c.Touches m) :
    c.Uses m ∨ c = .destroyMessage (.listHead m) := by
  cases c with
  | destroyMessage x =>
    cases x with
    | object n => exact .inl h
    | listHead n =>
      obtain rfl : n = m := h
      exact .inr rfl
  | _ => exact .inl h

namespace System
variable {hash32 : Pid → ℕ} {sig : Actor → Bool} {s s' : System} {act : Action}
  {tr tr' : List (System × Action)}

/-- The mailbox has been freed. -/
def Freed (s : System) (m : ℕ) : Prop := (s.mailboxes m).frees ≠ 0

/-- The next step of a deletion thread frees the mailbox. -/
def AboutToFree (s : System) (m : ℕ) : Prop := ∃ k, s.deletions k = some ⟨m,.destroying .free⟩

/-- What the registry needs of the system, and what it says about it. -/
structure ClaimInvariant (hash32 : Pid → ℕ) (s : System) : Prop where
  consistent : Consistent hash32 s
  quiet : ∀ k, s.signalPending (.kthread k) = false
  registry : Registry.Invariant s.registry

theorem claimInvariant_initial (quiet : ∀ k, sig (.kthread k) = false) :
    ClaimInvariant hash32 (initial sig) where
  consistent := consistent_initial sig
  quiet := quiet
  registry := .empty (fun _ ⟨_,h⟩ => by cases h) (fun _ => rfl) (fun _ => rfl) (fun _ => rfl)
    (fun _ => rfl)

lemma quiet_stepped (quiet : ∀ k, s.signalPending (.kthread k) = false)
    (hact : act.signalsDeletion = false) (hs : Stepped hash32 s act s') (k : ℕ) :
    s'.signalPending (.kthread k) = false := by
  cases hs with
  | @signal a =>
    have ha : (.kthread k : Actor) ≠ a := by
      rintro rfl
      cases hact
    exact (Function.update_of_ne ha _ _).trans (quiet k)
  | @handle p =>
    have hp : (.kthread k : Actor) ≠ .task p := nofun
    exact (Function.update_of_ne hp false s.signalPending).trans (quiet k)
  | _ => exact quiet k

/-- The registry step of a system step, with no condition on the removals. -/
lemma registry_stepped_any (h : Consistent hash32 s)
    (quiet : ∀ k, s.signalPending (.kthread k) = false) (hs : Stepped hash32 s act s') :
    s'.registry = s.registry ∨
      Registry.Step True (fun _ _ => True) s.registry s'.registry :=
  registry_stepped h (fun _ => quiet) hs fun _ _ => trivial

theorem ClaimInvariant.stepped (h : ClaimInvariant hash32 s)
    (hact : act.signalsDeletion = false) (hs : Stepped hash32 s act s') :
    ClaimInvariant hash32 s' where
  consistent := h.consistent.stepped hs
  quiet := quiet_stepped h.quiet hact hs
  registry := by
    rcases registry_stepped_any h.consistent h.quiet hs with he | hstep
    · exact he ▸ h.registry
    · exact h.registry.step hstep

theorem claimInvariant_of_run (h : Run (step hash32) (initial sig) tr s)
    (quiet : ∀ k, sig (.kthread k) = false) (silent : ∀ x ∈ tr, x.2.signalsDeletion = false) :
    ClaimInvariant hash32 s :=
  h.invariant_of_guard (C := fun _ act => act.signalsDeletion = false)
    (claimInvariant_initial quiet) (fun _ _ _ hs hc ht => hs.stepped hc (step_stepped ht)) silent

lemma counts_holdsClaim {t : Registry.State Pid Pid} {n : ℤ} {m : ℕ} (role : t.role = Pc.role ∘ s.pc)
    (h : Counts n t.role (Role.Holds m)) : Counts n s.pc (Pc.HoldsClaim m) := by
  have hset : holders s.pc (Pc.HoldsClaim m) = holders t.role (Role.Holds m) := by
    ext p
    rw [mem_holders,mem_holders,role]
    exact Pc.holdsClaim_iff m (s.pc p)
  unfold Counts
  rw [hset]
  exact h

lemma gone_iff (m : ℕ) : s.registry.frees m ≠ 0 ∨ (∃ k, s.registry.retirer k = some (m,.freeing)) ↔
    s.Freed m ∨ s.AboutToFree m := by
  refine or_congr_right (exists_congr fun k => ?_)
  change (s.deletions k).map DeletionThread.retirer = _ ↔ _
  cases hd : s.deletions k with
  | none => simp
  | some d =>
    obtain ⟨n,pc⟩ := d
    cases pc with
    | destroying cs => cases cs <;> simp [DeletionThread.retirer,DeletionPc.phase]
    | _ => simp [DeletionThread.retirer,DeletionPc.phase]

lemma ClaimInvariant.gone_stepped (h : ClaimInvariant hash32 s) (hs : Stepped hash32 s act s')
    {m : ℕ} (gone : s.Freed m ∨ s.AboutToFree m) : s'.Freed m ∨ s'.AboutToFree m := by
  rw [← gone_iff] at gone ⊢
  rcases registry_stepped_any h.consistent h.quiet hs with he | hstep
  · rwa [he]
  · refine hstep.gone ?_ gone
    rcases gone with hf | ⟨k,hk⟩
    · exact h.registry.frees_lt hf
    · exact h.registry.retirer_lt hk

/-- The step is the section of a receive that finds a positive count and an empty list, and takes the
list head for a message. -/
def takesListHead (s : System) : Action → Bool
  | .run p _ =>
    match s.pc p with
    | .onMailbox m _ (.removed _) =>
      decide ((s.mailboxes m).messageCount ≠ 0 ∧ (s.mailboxes m).messages = [])
    | _ => false
  | _ => false

/-- Nobody has a list head for a message. -/
structure NoListHeads (s : System) : Prop where
  queued : ∀ m n, .listHead n ∉ s.lists m
  held : ∀ p n, s.holding p ≠ some (.listHead n)

theorem noListHeads_initial : NoListHeads (initial sig) where
  queued _ _ := List.not_mem_nil
  held _ _ := nofun

theorem NoListHeads.stepped (no : NoListHeads s) (h : MessageStep s act s')
    (genuine : s.takesListHead act = false) : NoListHeads s' := by
  have hgiven : ∀ {p : Pid} {x : Option MessagePtr}, (∀ n, x ≠ some (.listHead n)) →
      s'.holding = Function.update s.holding p x → ∀ q n, s'.holding q ≠ some (.listHead n) := by
    intro p x hx hnew q n
    rw [hnew]
    by_cases hq : q = p
    · rw [hq,Function.update_self]
      exact hx n
    · rw [Function.update_of_ne hq]
      exact no.held q n
  have hlisted : ∀ {m : ℕ} {l : List MessagePtr}, (∀ n, .listHead n ∉ l) →
      s'.lists = Function.update s.lists m l → ∀ k n, .listHead n ∉ s'.lists k := by
    intro m l hl hnew k n
    rw [hnew]
    by_cases hk : k = m
    · rw [hk,Function.update_self]
      exact hl n
    · rw [Function.update_of_ne hk]
      exact no.queued k n
  cases h with
  | same cache lists holding | failed action pc made lists holding =>
    exact ⟨lists ▸ no.queued,holding ▸ no.held⟩
  | created action pc made lists holding => exact ⟨lists ▸ no.queued,hgiven (by simp) holding⟩
  | @added p o m x head cs k action pc adding adds holds cache lists holding =>
    refine ⟨hlisted (fun n hn => ?_) lists,hgiven (by simp) holding⟩
    have hx : .listHead n = x ∨ .listHead n ∈ s.lists m := by cases head <;> simpa [or_comm] using hn
    rcases hx with rfl | hold
    · exact no.held p n holds
    · exact no.queued m n hold
  | refused action refuses holds cache lists holding =>
    exact ⟨lists ▸ no.queued,hgiven (by simp) holding⟩
  | @taken p o m cs ptrs action pc count cache lists free holding =>
    refine ⟨hlisted (fun n hn => no.queued m n (List.mem_of_mem_tail hn)) lists,hgiven ?_ holding⟩
    intro n hhead
    cases hlist : s.lists m with
    | nil =>
      -- the only way to get hold of a list head
      have htakes : s.takesListHead act = true := by
        subst action
        simp only [takesListHead,pc]
        exact decide_eq_true ⟨count,hlist⟩
      rw [genuine] at htakes
      cases htakes
    | cons x l =>
      rw [hlist] at hhead
      obtain rfl : x = .listHead n := Option.some.inj hhead
      exact no.queued m n (by simp [hlist])
  | destroyed action pc cache lists holding => exact ⟨lists ▸ no.queued,hgiven (by simp) holding⟩
  | flushed outcome cache lists holding =>
    exact ⟨hlisted (fun n => List.not_mem_nil) lists,holding ▸ no.held⟩

theorem noListHeads_of_run (h : Run (step hash32) (initial sig) tr s)
    (genuine : ∀ x ∈ tr, x.1.takesListHead x.2 = false) : NoListHeads s := by
  induction h with
  | refl => exact noListHeads_initial
  | @snoc tr s act s' prior taken ih =>
    have hstep : MessageStep s act s' :=
      (step_stepped taken).messageStep (consistent_of_run prior) (uncreated_of_run prior)
    refine (ih fun x hx => ?_).stepped hstep (genuine (s,act) (by simp))
    exact genuine x (List.mem_append_left _ hx)

/-- The count of a mailbox is that of the calls that have claimed it. From the moment on in which a
deletion thread is about to free the mailbox it is in no bucket, and no call has a claim on it or is
about to get one: this is said of a state and of a later one. -/
structure ClaimsHold (s s' : System) : Prop where
  counts : ∀ m, ¬ s.Freed m → Counts (s.mailboxes m).dereferences s.pc (Pc.HoldsClaim m)
  nonneg : ∀ m, ¬ s.Freed m → 0 ≤ (s.mailboxes m).dereferences
  gone : ∀ m, s.Freed m ∨ s.AboutToFree m → s'.Freed m ∨ s'.AboutToFree m
  unlinked : ∀ m, s.Freed m ∨ s.AboutToFree m → ¬ s'.table.Linked m
  unused : ∀ m, s.Freed m ∨ s.AboutToFree m → ∀ p, ¬ (s'.pc p).Uses m

/-- What the claim protocol is for: nobody touches a mailbox that has been freed. -/
structure ClaimsProtect (s s' : System) : Prop extends ClaimsHold s s' where
  untouched : ∀ m, s.Freed m → ∀ p, ¬ (s'.pc p).Touches m

theorem claimsHold_of_run (reached : Run (step hash32) (initial sig) tr s)
    (run : Run (step hash32) s tr' s') (quiet : ∀ k, sig (.kthread k) = false)
    (silent : ∀ x ∈ tr ++ tr', x.2.signalsDeletion = false) : ClaimsHold s s' := by
  have hinv := claimInvariant_of_run reached quiet fun x hx =>
    silent x (List.mem_append_left _ hx)
  have hinv' := claimInvariant_of_run (reached.append run) quiet silent
  have hlater : ∀ m, s.Freed m ∨ s.AboutToFree m → s'.Freed m ∨ s'.AboutToFree m := by
    intro m hgone
    have hboth : ClaimInvariant hash32 s' ∧ (s'.Freed m ∨ s'.AboutToFree m) := by
      refine run.invariant_of_guard (C := fun _ act => act.signalsDeletion = false)
        (P := fun t => ClaimInvariant hash32 t ∧ (t.Freed m ∨ t.AboutToFree m)) ⟨hinv,hgone⟩ ?_
        fun x hx => silent x (List.mem_append_right _ hx)
      intro t act t' ⟨ht,hg⟩ hc htaken
      have hs := step_stepped htaken
      exact ⟨ht.stepped hc hs,ht.gone_stepped hs hg⟩
    exact hboth.2
  have hout : ∀ m, s.Freed m ∨ s.AboutToFree m →
      ¬ s'.table.Linked m ∧ ∀ p, ¬ (s'.pc p).role.Uses m := by
    intro m hgone
    exact hinv'.registry.not_uses ((gone_iff m).mpr (hlater m hgone))
  exact
    { counts := fun m _ => counts_holdsClaim rfl (hinv.registry.counts m)
      nonneg := fun m _ => (hinv.registry.counts m).nonneg
      gone := hlater
      unlinked := fun m hgone => (hout m hgone).1
      unused := fun m hgone p huses => (hout m hgone).2 p huses.role }

/-- In every run in which no receive takes a list head, the claims protect the mailboxes. -/
theorem claims_protect_mailbox (reached : Run (step hash32) (initial sig) tr s)
    (run : Run (step hash32) s tr' s') (quiet : ∀ k, sig (.kthread k) = false)
    (silent : ∀ x ∈ tr ++ tr', x.2.signalsDeletion = false)
    (genuine : ∀ x ∈ tr ++ tr', x.1.takesListHead x.2 = false) : ClaimsProtect s s' := by
  have hhold := claimsHold_of_run reached run quiet silent
  have hnone := noListHeads_of_run (reached.append run) genuine
  refine ⟨hhold,fun m hfreed p htouches => ?_⟩
  rcases htouches.cases with huses | hstray
  · exact hhold.unused m (.inl hfreed) p huses
  · exact hnone.held p m (congrArg Pc.holding hstray)

/-- Process 1001 sends to 1002, which exits; the deletion thread frees the mailbox while 1001
has a claim on another one. -/
theorem claims_protect_mailbox_after_exit : ∃ (tr : List (System × Action)) (s : System),
    Run (step goldenHash32) (initial fun _ => false) tr s ∧ s.Freed 0 ∧ ¬ s.Freed 1 ∧
      (s.mailboxes 1).dereferences = 1 ∧ ClaimsProtect s s := by
  obtain ⟨tr,s,hrun,htest⟩ := exists_run_of_execute (step goldenHash32) (initial fun _ => false)
    ([.newProcess 1001 1000,.newProcess 1002 1000,.newProcess 1003 1000,
        .enter 1001 (.sendMessage 1002 0 false)] ++ runs 1001 6 ++
      [.exit 1002] ++ runs 1002 7 ++ runsDeletion 0 7 ++
      [.enter 1001 (.sendMessage 1003 0 false)] ++ runs 1001 4)
    (fun tr s => tr.all (fun x => !x.2.signalsDeletion && !x.1.takesListHead x.2) &&
      decide ((s.mailboxes 0).frees ≠ 0 ∧ (s.mailboxes 1).frees = 0 ∧
        (s.mailboxes 1).dereferences = 1)) (by decide +kernel)
  simp only [Bool.and_eq_true,decide_eq_true_eq,List.all_eq_true,Bool.not_eq_true'] at htest
  obtain ⟨hsteps,hfreed,hunfreed,hone⟩ := htest
  refine ⟨tr,s,hrun,hfreed,not_not.mpr hunfreed,hone,?_⟩
  refine claims_protect_mailbox hrun .refl (fun _ => rfl) (fun x hx => ?_) fun x hx => ?_
  · exact (hsteps x (by simpa using hx)).1
  · exact (hsteps x (by simpa using hx)).2

/-- Thread 1002 has claimed the mailbox of its process for a receive when thread 1001 ends the group.
The deletion thread flushes the message and waits for the claim. The receive takes the list head,
delivers it and unclaims the mailbox; then the mailbox is freed, and 1002 goes on to free the list
head as a message. -/
theorem exists_touch_after_free : ∃ (tr : List (System × Action)) (s : System),
    Run (step goldenHash32) (initial fun _ => false) tr s ∧
      (∀ x ∈ tr, x.2.signalsDeletion = false) ∧ s.Freed 0 ∧
      s.pc 1002 = .destroyMessage (.listHead 0) ∧ ¬ ClaimsProtect s s := by
  obtain ⟨tr,s,hrun,htest⟩ := exists_run_of_execute (step goldenHash32) (initial fun _ => false)
    ([.newProcess 1001 1000,.clone 1001 1002,.enter 1001 (.sendMessage 1001 0 false)] ++
      runs 1001 6 ++ [.enter 1002 (.recieveMessage ⟨4,0,4⟩ false)] ++ runs 1002 4 ++
      [.exitGroup 1001] ++ runs 1001 4 ++ runsDeletion 0 5 ++ runs 1002 3 ++ runsDeletion 0 2)
    (fun tr s => tr.all (fun x => !x.2.signalsDeletion) && decide ((s.mailboxes 0).frees ≠ 0 ∧
      s.pc 1002 = .destroyMessage (.listHead 0))) (by decide +kernel)
  simp only [Bool.and_eq_true,decide_eq_true_eq,List.all_eq_true,Bool.not_eq_true'] at htest
  obtain ⟨hsilent,hfreed,hpc⟩ := htest
  refine ⟨tr,s,hrun,hsilent,hfreed,hpc,fun hprotect => ?_⟩
  have htouches : (s.pc 1002).Touches 0 := by
    rw [hpc]
    rfl
  exact hprotect.untouched 0 hfreed 1002 htouches

end System
end ProcessMessagePassing
