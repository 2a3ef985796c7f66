import ProcessMessagePassing.Kernel.Projection

/-! The count of a mailbox through its destruction. The flush loop of `mailbox_destroy` takes the
messages off the list and leaves the count, while receivers that claimed the mailbox before may
still go by the count. -/
namespace ProcessMessagePassing.System
open Concurrency HashTable

variable {hash32 : Pid → ℕ} {sig : Actor → Bool} {s s' : System} {act : Action}
  {tr : List (System × Action)} {a : Actor} {m : ℕ} {cs : CallState MessagePtr}

/-- The action runs the flush loop of a mailbox that has not been freed and has messages. -/
def flushesMessages (s : System) (act : Action) : Bool :=
  (s.running act).any fun (a,m,cs) =>
    decide ((cs = .flush ∨ cs = .flushWaiting) ∧
      ((s.mailboxes m).waiting = 0 ∨ s.signalPending a = true) ∧
      (s.mailboxes m).frees = 0 ∧ (s.mailboxes m).messages ≠ [])

/-- The count of every mailbox that has not been freed is the length of its list. -/
def CountsExact (s : System) : Prop := ∀ m, (s.mailboxes m).frees = 0 → (s.mailboxes m).Exact

/-- As long as a mailbox is not freed its count is the length of its list, and what a receive
takes from it is a message of the list. -/
structure CountsAgree (tr : List (System × Action)) (s : System) : Prop where
  exact : ∀ t ∈ tr.map Prod.fst ++ [s], t.CountsExact
  genuine : ∀ x ∈ tr, ∀ m e, (x.1.mailboxes m).frees = 0 →
    outcome x.1 x.2 = some (m,.returned (.message e)) →
    ∃ y rest, (x.1.mailboxes m).messages = y :: rest ∧ e = .node y

lemma flushesMessages_iff (running : s.running act = some (a,m,cs)) :
    s.flushesMessages act = true ↔ (cs = .flush ∨ cs = .flushWaiting) ∧
      ((s.mailboxes m).waiting = 0 ∨ s.signalPending a = true) ∧
      (s.mailboxes m).frees = 0 ∧ (s.mailboxes m).messages ≠ [] := by
  simp [flushesMessages,running]

theorem countsExact_initial : (initial sig).CountsExact := fun _ _ => Mailbox.exact_create 0

/-- A step keeps the counts exact unless it flushes messages. -/
theorem CountsExact.stepped (h : s.CountsExact) (unflushed : s.flushesMessages act = false)
    (hs : Stepped hash32 s act s') : s'.CountsExact := by
  intro m hfrees
  cases hs.mailboxStep m with
  | same mailbox =>
    rw [mailbox] at hfrees ⊢
    exact h m hfrees
  | created _ _ mailbox => exact mailbox ▸ Mailbox.exact_create _
  | @run a cs pr running locked =>
    have hold : (s.mailboxes m).frees = 0 := by
      have := locked.2.frees_eq
      omega
    apply locked.2.exact (h m hold)
    intro destroyed hp
    by_contra hne
    have hlocked := locked.2
    rw [hp] at hlocked
    obtain ⟨hcs,hdone,rfl⟩ := hlocked.flushed_when
    have htrue := (flushesMessages_iff running).mpr ⟨hcs,hdone,hold,hne⟩
    rw [unflushed] at htrue
    cases htrue

/-- A flush loop that meets messages leaves the count of its mailbox wrong. -/
theorem not_countsExact_of_flushes (h : s.CountsExact) (flushes : s.flushesMessages act = true)
    (hs : Stepped hash32 s act s') : ¬ s'.CountsExact := by
  intro hexact
  obtain ⟨⟨a,m,cs⟩,running,-⟩ := (Option.any_eq_true _ _).mp flushes
  obtain ⟨hcs,hdone,hfrees,hne⟩ := (flushesMessages_iff running).mp flushes
  obtain ⟨pr,locked⟩ := hs.section_of_running running
  have hlocked := locked.2
  rw [hlocked.flushes hcs hdone] at hlocked
  have hfrees' : (s'.mailboxes m).frees = 0 := by
    rw [hlocked.frees_eq,hfrees]
    rcases hcs with rfl | rfl <;> rfl
  exact hne (hlocked.flushed_exact (h m hfrees) (hexact m hfrees'))

/-- With the count exact a receive takes a message of the list. -/
theorem CountsExact.genuine (h : s.CountsExact) (hs : Stepped hash32 s act s')
    (unfreed : (s.mailboxes m).frees = 0) {e : ListEntry MessagePtr}
    (taken : outcome s act = some (m,.returned (.message e))) :
    ∃ y rest, (s.mailboxes m).messages = y :: rest ∧ e = .node y := by
  obtain ⟨⟨a,n,cs⟩,running,he⟩ := Option.map_eq_some_iff.mp taken
  obtain ⟨pr,locked⟩ := hs.section_of_running running
  obtain ⟨rfl,hpr⟩ := Prod.mk.inj he
  rw [locked.result] at hpr
  have hlocked := locked.2
  rw [show pr = _ from hpr] at hlocked
  obtain ⟨rfl,hcount,-⟩ := hlocked.takes
  exact Mailbox.exists_front (h n unfreed) hcount

/-- In a run the counts agree with the lists exactly when no flush loop meets a message. -/
theorem countsAgree_iff (h : Run (step hash32) (initial sig) tr s) :
    CountsAgree tr s ↔ ∀ x ∈ tr, x.1.flushesMessages x.2 = false := by
  constructor
  · intro hagree x hx
    obtain ⟨t,ht,hmem⟩ := h.taken hx
    by_contra hflush
    have hold : x.1.CountsExact :=
      hagree.exact x.1 (List.mem_append_left _ (List.mem_map_of_mem hx))
    exact not_countsExact_of_flushes hold (Bool.not_eq_false _ ▸ hflush) (step_stepped ht)
      (hagree.exact t hmem)
  · intro hunflushed
    have hexact : ∀ t ∈ tr.map Prod.fst ++ [s], t.CountsExact := by
      intro t ht
      obtain ⟨before,hbefore,hrun⟩ := h.reaches ht
      refine hrun.invariant_of_guard (C := fun t act => t.flushesMessages act = false)
        countsExact_initial ?_ fun x hx => hunflushed x (hbefore.subset hx)
      intro t act t' hexact hguard htaken
      exact hexact.stepped hguard (step_stepped htaken)
    refine ⟨hexact,?_⟩
    intro x hx m e hfrees he
    obtain ⟨t,ht,-⟩ := h.taken hx
    exact (hexact x.1 (List.mem_append_left _ (List.mem_map_of_mem hx))).genuine
      (step_stepped ht) hfrees he

/-- Process 1001 takes its own message and exits. -/
theorem countsAgree_after_exit : ∃ (tr : List (System × Action)) (s : System),
    Run (step goldenHash32) (initial fun _ => false) tr s ∧ CountsAgree tr s ∧
      (s.mailboxes 0).frees = 1 := by
  obtain ⟨tr,s,hrun,htest⟩ := exists_run_of_execute (step goldenHash32) (initial fun _ => false)
    ([.newProcess 1001 1000,.enter 1001 (.sendMessage 1001 0 false)] ++ runs 1001 6 ++
      [.enter 1001 (.recieveMessage ⟨4,0,4⟩ false)] ++ runs 1001 8 ++
      [.exitGroup 1001] ++ runs 1001 4 ++ runsDeletion 0 7)
    (fun tr s => tr.all (fun x => !x.1.flushesMessages x.2) &&
      decide ((s.mailboxes 0).frees = 1)) (by decide +kernel)
  simp only [Bool.and_eq_true,decide_eq_true_eq,List.all_eq_true,Bool.not_eq_true'] at htest
  obtain ⟨hunflushed,hfreed⟩ := htest
  exact ⟨tr,s,hrun,(countsAgree_iff hrun).mpr hunflushed,hfreed⟩

/-- Thread 1002 has claimed the mailbox of its process for a receive when thread 1001 ends the
group. The deletion thread flushes the message, and the receive takes the list head for one. -/
theorem exists_list_head_taken : ∃ (tr : List (System × Action)) (s : System),
    Run (step goldenHash32) (initial fun _ => false) tr s ∧ ¬ CountsAgree tr s := by
  obtain ⟨tr,s,hrun,htest⟩ := exists_run_of_execute (step goldenHash32) (initial fun _ => false)
    ([.newProcess 1001 1000,.clone 1001 1002,.enter 1001 (.sendMessage 1001 0 false)] ++
      runs 1001 6 ++ [.enter 1002 (.recieveMessage ⟨4,0,4⟩ false)] ++ runs 1002 4 ++
      [.exitGroup 1001] ++ runs 1001 4 ++ runsDeletion 0 5 ++ runs 1002 1)
    (fun tr _ => tr.any fun x => decide ((x.1.mailboxes 0).frees = 0 ∧
      outcome x.1 x.2 = some (0,.returned (.message .head)))) (by decide +kernel)
  obtain ⟨x,hx,hhead⟩ := List.any_eq_true.mp htest
  obtain ⟨hunfreed,htaken⟩ := of_decide_eq_true hhead
  refine ⟨tr,s,hrun,fun hagree => ?_⟩
  obtain ⟨y,rest,-,hnode⟩ := hagree.genuine x hx 0 .head hunfreed htaken
  cases hnode

end ProcessMessagePassing.System
