import ProcessMessagePassing.Kernel.Lifetime

/-! Under which ids the mailboxes are in the table. A send looks its mailbox up by the id it was
given, which may be that of any thread; everything else goes by the id of the process. -/
namespace ProcessMessagePassing
open Concurrency HashTable

namespace System
variable {hash32 : Pid → ℕ} {sig : Actor → Bool} {s s' : System} {act : Action}
  {tr : List (System × Action)} {m : ℕ} {p q : Pid}

/-- The mailboxes in the table are under ids of processes, and none is under the id of a thread that
does not lead its process. -/
def KeyedByTgid (s : System) : Prop :=
  ∀ m, s.table.Linked m →
    s.processes.births (s.owner m) ≠ 0 ∧ s.processes.tgid (s.owner m) = s.owner m

/-- Every lookup for the id of a thread gets the mailbox that the process of the thread finds by
its own id, every message that a send puts on a list is in the mailbox of the id it was sent to, and
the table has mailboxes of processes only. -/
structure SendsArrive (hash32 : Pid → ℕ) (tr : List (System × Action)) (s : System) : Prop where
  keyed : ∀ t ∈ tr.map Prod.fst ++ [s], t.KeyedByTgid
  found : ∀ x ∈ tr, ∀ p o pid c u m cs k, x.2 = .run p o → x.1.pc p = .lookup pid c →
    step hash32 x.1 x.2 = some u → u.pc p = .onMailbox m cs k →
    u.get hash32 (u.processes.tgid pid) = some m
  put : ∀ before t act after m x, tr = before ++ (t,act) :: after → t.adds m false act = some x →
    ∃ q i len block, act.moves = some q ∧ callOf q before = some (i,.sendMessage (t.owner m) len block)

/-- The action makes a mailbox under an id that is not that of a process, or gives the id of a
mailbox to a thread. -/
def MisplacesKey (hash32 : Pid → ℕ) (s : System) (act : Action) : Prop :=
  (∃ pid, s.creates hash32 act = some pid ∧
    (s.processes.births pid = 0 ∨ s.processes.tgid pid ≠ pid)) ∨
  ∃ parent p m, act = .clone parent p ∧ s.table.Linked m ∧ s.owner m = p

lemma tgid_eq_group (ps : Processes) (p : Pid) : ps.tgid p = (ps.group p).getD p := rfl

/-- A step that starts no thread under the id leaves it the id of a process. -/
lemma tgid_stepped (h : Stepped hash32 s act s') (old : s.processes.tgid p = p)
    (cloned : ∀ parent, act ≠ .clone parent p) : s'.processes.tgid p = p := by
  rw [tgid_eq_group] at old ⊢
  cases h.processStep with
  | same processes | signalled action processes | decremented moves pc processes =>
    rw [processes]
    exact old
  | @started q uid action absent free processes =>
    rw [processes,Processes.group_newProcess]
    by_cases hpq : p = q
    · subst q
      rw [Function.update_self]
      rfl
    · rw [Function.update_of_ne hpq]
      exact old
  | @cloned parent q last task action caller alive absent free processes =>
    rw [processes,Processes.group_clone]
    by_cases hpq : p = q
    · subst q
      exact absurd action (cloned parent)
    · rw [Function.update_of_ne hpq]
      exact old
  | @exits q group moves pc processes =>
    rw [processes,Processes.group_setExiting]
    cases group <;> exact old
  | died moves pc processes =>
    rw [processes,Processes.group_die]
    exact old
  | @released q moves pc may processes =>
    rw [processes,Processes.group_release]
    by_cases hpq : p = q
    · subst q
      rw [Function.update_self]
      rfl
    · rw [Function.update_of_ne hpq]
      exact old

lemma KeyedByTgid.stepped (keyed : s.KeyedByTgid) (hc : Consistent hash32 s)
    (h : Stepped hash32 s act s') (places : ¬ MisplacesKey hash32 s act) : s'.KeyedByTgid := by
  intro m hlinked
  rcases linked_stepped hc h hlinked with hold | ⟨rfl,hcreates,-⟩
  · rw [owner_stepped h (hc.linked_lt m hold)]
    obtain ⟨hborn,htgid⟩ := keyed m hold
    have hle := births_le h (s.owner m)
    refine ⟨by omega,tgid_stepped h htgid ?_⟩
    intro parent hact
    exact places (.inr ⟨parent,_,m,hact,hold,rfl⟩)
  · have hproper : s.processes.births (s'.owner s.mailboxesCreated) ≠ 0 ∧
        s.processes.tgid (s'.owner s.mailboxesCreated) = s'.owner s.mailboxesCreated := by
      constructor
      · exact fun he => places (.inl ⟨_,hcreates,.inl he⟩)
      · exact not_not.mp fun he => places (.inl ⟨_,hcreates,.inr he⟩)
    have hle := births_le h (s'.owner s.mailboxesCreated)
    refine ⟨by omega,tgid_stepped h hproper.2 ?_⟩
    rintro parent rfl
    cases hcreates

/-- Where a key is misplaced, the table has a mailbox of a thread, or of nobody. -/
lemma not_keyedByTgid (hc : Consistent hash32 s) (threads : ThreadInvariant s)
    (taken : step hash32 s act = some s') (misplaces : MisplacesKey hash32 s act) :
    ¬ s'.KeyedByTgid := by
  intro keyed
  rcases misplaces with ⟨pid,hcreates,hbad⟩ | ⟨parent,p,m,rfl,hlinked,rfl⟩
  · obtain ⟨p,c,rfl⟩ := createMailbox_of_creates hcreates taken
    obtain ⟨hlinked,howner⟩ := linked_of_get (hc.get_createMailbox p pid c)
    obtain ⟨hborn,htgid⟩ := keyed s.mailboxesCreated hlinked
    rw [howner] at hborn htgid
    rcases hbad with hbad | hbad
    · exact hborn hbad
    · exact hbad htgid
  · cases step_stepped taken with
    | @clone parent p last task caller alive absent free =>
      obtain ⟨-,htgid⟩ := keyed m hlinked
      have hgroup : (s.processes.clone task (s.owner m)).tgid (s.owner m) = task.tgid := by
        rw [tgid_eq_group,Processes.group_clone,Function.update_self]
        rfl
      have hself : task.tgid = s.owner m := hgroup.symm.trans htgid
      have hparent := Processes.group_of_task alive
      rw [hself] at hparent
      exact threads.no_member (Processes.group_eq_none.mpr free) parent hparent

/-- A lookup that is through has the mailbox of its id in the table. -/
lemma get_of_lookup (hc : Consistent hash32 s) {o : Oracle} {pid : Pid} {c : Syscall}
    {cs : CallState MessagePtr} {k : Cont} (taken : step hash32 s (.run p o) = some s')
    (pc : s.pc p = .lookup pid c) (next : s'.pc p = .onMailbox m cs k) :
    s'.get hash32 pid = some m := by
  simp only [step,runTask,pc] at taken
  split_ifs at taken
  cases taken
  cases hget : s.get hash32 pid with
  | some n =>
    simp only [lookupMailbox,hget,setPc_self] at next ⊢
    cases next
    exact hget
  | none =>
    simp only [lookupMailbox,hget] at next ⊢
    split_ifs at next ⊢ with hmemory
    · rw [setPc_self] at next
      cases next
      exact hc.get_createMailbox p pid c
    · rw [setPc_self] at next
      cases next

theorem keyedByTgid_of_run (h : Run (step hash32) (initial sig) tr s)
    (places : ∀ x ∈ tr, ¬ MisplacesKey hash32 x.1 x.2) : s.KeyedByTgid := by
  induction h with
  | refl =>
    rintro m ⟨b,hb⟩
    cases hb
  | @snoc tr s act s' prior taken ih =>
    exact (ih fun x hx => places x (List.mem_append_left _ hx)).stepped (consistent_of_run prior)
      (step_stepped taken) (places (s,act) (by simp))

/-- In a run the messages arrive with the processes they were sent to just in case no mailbox is made
under an id that is not that of a process, and no thread gets the id of a mailbox. -/
theorem sendsArrive_iff (h : Run (step hash32) (initial sig) tr s) :
    SendsArrive hash32 tr s ↔ ∀ x ∈ tr, ¬ MisplacesKey hash32 x.1 x.2 := by
  constructor
  · intro harrive x hx hmisplaces
    obtain ⟨before,after,u,rfl,hbefore,htaken,hafter⟩ := h.split hx
    refine not_keyedByTgid (consistent_of_run hbefore) (threadInvariant_of_run hbefore) htaken
      hmisplaces (harrive.keyed u ?_)
    rw [List.map_append,List.map_cons,List.append_assoc]
    exact List.mem_append_right _ (List.mem_cons_of_mem _ hafter.start_mem)
  · intro hplaces
    constructor
    · intro t ht
      obtain ⟨before,hbefore,hrun⟩ := h.reaches ht
      exact keyedByTgid_of_run hrun fun x hx => hplaces x (hbefore.subset hx)
    · rintro ⟨t,act⟩ hx p o pid c u m cs k rfl hpc htaken hnext
      obtain ⟨before,after,u',rfl,hbefore,htaken',hafter⟩ := h.split hx
      have hget := get_of_lookup (consistent_of_run hbefore) htaken hpc hnext
      have hkeyed : u.KeyedByTgid := by
        refine keyedByTgid_of_run (.snoc hbefore htaken) fun x hx => hplaces x ?_
        rw [List.append_cons]
        exact List.mem_append_left _ hx
      obtain ⟨hlinked,rfl⟩ := linked_of_get hget
      rw [(hkeyed m hlinked).2]
      exact hget
    · rintro before t act after m x rfl hadds
      obtain ⟨u,hbefore,htaken,-⟩ := h.split_at
      exact (lifeContext_of_run hbefore).sending_of_adds (step_stepped htaken) hadds

/-- The action misplaces no key, as far as it can be told from the mailboxes that there are. -/
def placesKey (hash32 : Pid → ℕ) (y : System × Action) : Bool :=
  match y.2 with
  | .clone _ p => decide (y.1.get hash32 p = none)
  | act => (y.1.creates hash32 act).all fun pid =>
      decide (y.1.processes.births pid ≠ 0 ∧ y.1.processes.tgid pid = pid)

lemma not_misplacesKey (hc : Consistent hash32 s) (places : placesKey hash32 (s,act) = true) :
    ¬ MisplacesKey hash32 s act := by
  rintro (⟨pid,hcreates,hbad⟩ | ⟨parent,p,m,rfl,hlinked,rfl⟩)
  · cases act with
    | run p o =>
      simp only [placesKey] at places
      rw [hcreates] at places
      obtain ⟨hborn,htgid⟩ := of_decide_eq_true places
      rcases hbad with hbad | hbad
      · exact hborn hbad
      · exact hbad htgid
    | _ => cases hcreates
  · exact owner_ne_of_get hc.table (of_decide_eq_true places) hlinked rfl

/-- A thread of process 1001 sends to the process and receives its own message. -/
theorem sendsArrive_to_process : ∃ (tr : List (System × Action)) (s : System),
    Run (step goldenHash32) (initial fun _ => false) tr s ∧ s.pc 1002 = .user (some .ok) ∧
      s.written 1002 = [.sender 1001,.len 0,.msg []] ∧ SendsArrive goldenHash32 tr s := by
  obtain ⟨tr,s,hrun,htest⟩ := exists_run_of_execute (step goldenHash32) (initial fun _ => false)
    ([.newProcess 1001 1000,.clone 1001 1002,.enter 1002 (.sendMessage 1001 0 false)] ++
      runs 1002 6 ++ [.enter 1002 (.recieveMessage ⟨4,0,4⟩ false)] ++ runs 1002 8)
    (fun tr s => tr.all (placesKey goldenHash32) && decide (s.pc 1002 = .user (some .ok) ∧
      s.written 1002 = [.sender 1001,.len 0,.msg []])) (by decide +kernel)
  rw [Bool.and_eq_true] at htest
  obtain ⟨hall,hend⟩ := htest
  obtain ⟨hreturned,hwritten⟩ := of_decide_eq_true hend
  refine ⟨tr,s,hrun,hreturned,hwritten,(sendsArrive_iff hrun).mpr fun x hx => ?_⟩
  obtain ⟨before,after,u,rfl,hbefore,-,-⟩ := hrun.split hx
  exact not_misplacesKey (consistent_of_run hbefore) (List.all_eq_true.mp hall x hx)

/-- Process 1001 sends to the id of its second thread, and the send returns zero. The message is in
a mailbox of the id 1002, which no call of the process looks up. -/
theorem exists_misplaced_message : ∃ (tr : List (System × Action)) (s : System),
    Run (step goldenHash32) (initial fun _ => false) tr s ∧ s.pc 1001 = .user (some .ok) ∧
      s.processes.tgid 1002 = 1001 ∧ s.get goldenHash32 1002 = some 0 ∧
      (s.mailboxes 0).messages = [.object 0] ∧ s.get goldenHash32 1001 = none ∧
      ¬ SendsArrive goldenHash32 tr s := by
  obtain ⟨tr,s,hrun,htest⟩ := exists_run_of_execute (step goldenHash32) (initial fun _ => false)
    ([.newProcess 1001 1000,.clone 1001 1002,.enter 1001 (.sendMessage 1002 0 false)] ++
      runs 1001 6)
    (fun _ s => decide (s.pc 1001 = .user (some .ok) ∧ s.processes.tgid 1002 = 1001 ∧
      s.get goldenHash32 1002 = some 0 ∧ (s.mailboxes 0).messages = [.object 0] ∧
      s.get goldenHash32 1001 = none)) (by decide +kernel)
  obtain ⟨hreturned,htgid,hget,hmessages,hnone⟩ := of_decide_eq_true htest
  refine ⟨tr,s,hrun,hreturned,htgid,hget,hmessages,hnone,fun harrive => ?_⟩
  obtain ⟨hlinked,howner⟩ := linked_of_get hget
  have hkeyed := (harrive.keyed s (by simp) 0 hlinked).2
  rw [howner,htgid] at hkeyed
  exact absurd hkeyed (by decide)

end System
end ProcessMessagePassing
