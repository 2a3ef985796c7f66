import ProcessMessagePassing.Kernel.Calls
import ProcessMessagePassing.Kernel.Orphan
import ProcessMessagePassing.Kernel.PidMap

/-! The calls that look the mailbox of one process up or create it. From the time it is put into the
table until a deletion thread removes its key, all of them get the same mailbox. -/
namespace ProcessMessagePassing
open Concurrency HashTable

/-- The call that is inside `get_mailbox_for_pid`. -/
def Pc.getting : Pc → Option Syscall
  | .validate _ c => some c
  | .lookup _ c => some c
  | .onMailbox _ _ (.claimed _ c) => some c
  | .checkExiting _ c => some c
  | _ => none

lemma inCall_of_getting {pc : Pc} {c : Syscall} (h : pc.getting = some c) : pc.inCall = true := by
  cases pc with
  | onMailbox m cs k =>
    cases k with
    | hook group => cases h
    | _ => rfl
  | validate | lookup | checkExiting => rfl
  | _ => cases h

namespace System

def tableState (s : System) : TableState := ⟨s.owner,s.table⟩

/-- The operations on the table that the action makes. -/
def tableOps (hash32 : Pid → ℕ) (s : System) : Action → List TableOp
  | .run p o =>
    match s.pc p with
    | .lookup pid _ => .get pid (s.get hash32 pid) ::
        if s.get hash32 pid = none ∧ o.alloc = true then [.put pid s.mailboxesCreated] else []
    | .removeLookup _ => [.get (s.processes.tgid p) (s.get hash32 (s.processes.tgid p))]
    | _ => []
  | .runDeletion k _ =>
    match s.deletions k with
    | some ⟨_,.unlink pid⟩ => [.remove pid]
    | _ => []
  | _ => []

/-- The action is that of a deletion thread which removes the key from the table. -/
def RemovesKey (s : System) (act : Action) (pid : Pid) : Prop :=
  ∃ k o m, act = .runDeletion k o ∧ s.deletions k = some ⟨m,.unlink pid⟩

/-- The action returns zero from a `get_mailbox_for_pid` of `pid`, and the call goes on with `m`. -/
def HandsOut (hash32 : Pid → ℕ) (s : System) (act : Action) (pid : Pid) (m : ℕ) : Prop :=
  ∃ p o c u, act = .run p o ∧ (s.pc p).getting = some c ∧ s.key p c = pid ∧
    step hash32 s act = some u ∧ u.pc p = c.begin m

/-- The mailbox has been created for `pid` and put into the table, and in what has happened since no
deletion thread has removed `pid`. -/
def PutSince (hash32 : Pid → ℕ) (tr : List (System × Action)) (pid : Pid) (m : ℕ)
    (since : List (System × Action)) : Prop :=
  ∃ before t act, tr = before ++ (t,act) :: since ∧ t.creates hash32 act = some pid ∧
    m = t.mailboxesCreated ∧ ∀ y ∈ since, ¬ y.1.RemovesKey y.2 pid

/-- The table has gone through the operations of a finite map. An entry of it is a mailbox that has
been put since the key was last removed; no other is created and no other is handed out for the key
until it is removed again, and a call that cannot allocate one changes nothing. -/
structure LookupsAgree (hash32 : Pid → ℕ) (tr : List (System × Action)) (s : System) : Prop where
  map : ∃ f, Steps MapStep (∅ : PidMap) (tr.flatMap fun x => x.1.tableOps hash32 x.2) f ∧
    s.tableState.Represents hash32 f
  entry : ∀ pid m, s.get hash32 pid = some m ↔ ∃ since, PutSince hash32 tr pid m since
  once : ∀ pid m since, PutSince hash32 tr pid m since →
    ∀ y ∈ since, y.1.creates hash32 y.2 ≠ some pid
  agree : ∀ pid m since, PutSince hash32 tr pid m since →
    ∀ y ∈ since, ∀ n, HandsOut hash32 y.1 y.2 pid n → n = m
  failed : ∀ x ∈ tr, ∀ p o pid c u, x.2 = .run p o → x.1.pc p = .lookup pid c →
    x.1.get hash32 pid = none → o.alloc = false → step hash32 x.1 x.2 = some u →
    u.pc p = .user (some .mailboxError) ∧ u.table = x.1.table ∧ u.mailboxes = x.1.mailboxes ∧
      u.registry = x.1.registry

variable {hash32 : Pid → ℕ} {sig : Actor → Bool} {s s' u : System} {act : Action}
  {tr since : List (System × Action)} {p pid : Pid} {m n : ℕ}

/-- The owner of the new mailbox is the only one that its creation sets. -/
lemma tableState_createMailbox (s : System) (p pid : Pid) (c : Syscall) :
    (s.createMailbox hash32 p pid c).tableState =
      ⟨Function.update s.owner s.mailboxesCreated pid,
        hashtablePut hash32 (Function.update s.owner s.mailboxesCreated pid) s.table pid
          s.mailboxesCreated⟩ := by
  have howner : (s.setMailbox s.mailboxesCreated (.create pid)).owner =
      Function.update s.owner s.mailboxesCreated pid := by
    funext n
    exact Function.apply_update (fun _ => Mailbox.owner) s.mailboxes s.mailboxesCreated _ n
  rw [← howner]
  rfl

/-- Every step of the system does its operations on the table. -/
lemma tableSteps_stepped (hc : Consistent hash32 s) (h : Stepped hash32 s act s') :
    Steps (TableStep hash32) s.tableState (s.tableOps hash32 act) s'.tableState := by
  have kept : ∀ {m m'}, (s.setMailbox m m').owner = s.owner →
      Steps (TableStep hash32) s.tableState [] ⟨(s.setMailbox m m').owner,s.table⟩ := by
    intro m m' howner
    rw [howner]
    exact .refl
  cases h with
  | found pc unlocked found =>
    simp only [tableOps,pc,found,reduceCtorEq,false_and,if_false]
    rw [← found]
    exact .one .get
  | @created p o pid c pc unlocked missing memory =>
    simp only [tableOps,pc,missing,memory,and_self,if_true]
    have hget : TableStep hash32 s.tableState (.get pid none) s.tableState := by
      rw [← missing]
      exact .get
    have hput : TableStep hash32 s.tableState (.put pid s.mailboxesCreated)
        (s.createMailbox hash32 p pid c).tableState := by
      rw [tableState_createMailbox]
      exact .put hc.not_linked_created
    exact .two hget hput
  | outOfMemory pc unlocked missing full =>
    simp only [tableOps,pc,missing,full,Bool.false_eq_true,and_false,if_false]
    rw [← missing]
    exact .one .get
  | removalFound pc | removalMissing pc =>
    simp only [tableOps,pc]
    exact .one .get
  | unlinked deletion =>
    simp only [tableOps,deletion]
    exact .one .remove
  | stays pc locked | returned pc locked =>
    simp only [tableOps,pc]
    exact kept locked.owner
  | destroyStays deletion locked | flushed deletion locked | deleted deletion locked =>
    simp only [tableOps,deletion]
    exact kept locked.owner
  | valid pc | invalid pc | refused pc | granted pc | messageCreated pc | messageFailed pc
  | countFault pc | countCopied pc | copied pc | copyFault pc | destroyed pc | lastThread pc
  | otherThread pc | deletionStarted pc | deletionFailed pc | realExit pc | decrementLive pc
  | die pc =>
    simp only [tableOps,pc]
    exact .refl
  | ownerRead deletion | stillValid deletion | exited deletion =>
    simp only [tableOps,deletion]
    exact .refl
  | _ => exact .refl

/-- Every run of the system is one of operations on the table. -/
theorem tableSteps_of_run (h : Run (step hash32) (initial sig) tr s) :
    Steps (TableStep hash32) (initial sig).tableState
      (tr.flatMap fun x => x.1.tableOps hash32 x.2) s.tableState := by
  induction h with
  | refl => exact .refl
  | snoc prior taken ih =>
    rw [List.flatMap_append,List.flatMap_singleton]
    exact ih.append (tableSteps_stepped (consistent_of_run prior) (step_stepped taken))

/-- An entry stays until a deletion thread removes its key. -/
lemma get_kept (hc : Consistent hash32 s) (h : Stepped hash32 s act s')
    (get : s.get hash32 pid = some m) (keeps : ¬ s.RemovesKey act pid) :
    s'.get hash32 pid = some m := by
  obtain ⟨hlinked,howner⟩ := linked_of_get get
  apply get_stepped hc h get
  cases h with
  | @created p o key c pc unlocked missing =>
    refine (linked_put (hc.table_create key)).mpr (.inr ⟨hlinked,?_⟩)
    rw [hc.owner_create key hlinked]
    exact owner_ne_of_get hc.table missing hlinked
  | @unlinked k n o key deletion =>
    refine (linked_remove hc.table).mpr ⟨hlinked,?_⟩
    rintro rfl
    apply keeps
    rw [← howner]
    exact ⟨k,o,n,rfl,deletion⟩
  | _ => exact hlinked

/-- A removal of the key leaves no entry under it. -/
lemma get_removed (hc : Consistent hash32 s) (h : Stepped hash32 s act s')
    (removes : s.RemovesKey act pid) : s'.get hash32 pid = none := by
  obtain ⟨k,o,n,rfl,hdeletion⟩ := removes
  cases h with
  | unlinked deletion =>
    rw [hdeletion] at deletion
    cases deletion
    exact get_remove_self hc.table
  | ownerRead deletion | stillValid deletion | exited deletion | destroyStays deletion
  | flushed deletion | deleted deletion =>
    rw [hdeletion] at deletion
    cases deletion

lemma get_created (hc : Consistent hash32 s) (creates : s.creates hash32 act = some pid)
    (taken : step hash32 s act = some s') : s'.get hash32 pid = some s.mailboxesCreated := by
  obtain ⟨p,c,rfl⟩ := createMailbox_of_creates creates taken
  exact hc.get_createMailbox p pid c

lemma not_creates_of_get (get : s.get hash32 pid = some m) :
    s.creates hash32 act ≠ some pid := by
  intro hcreates
  obtain ⟨p,o,c,-,-,hmissing,-⟩ := creates_eq_some_iff.mp hcreates
  rw [hmissing] at get
  cases get

/-- From the put on to any later point, the entry is there. -/
lemma get_since (hc : Consistent hash32 u) (get : u.get hash32 pid = some m)
    (h : Run (step hash32) u since s) (keeps : ∀ y ∈ since, ¬ y.1.RemovesKey y.2 pid) :
    s.get hash32 pid = some m := by
  have hinv : Consistent hash32 s ∧ s.get hash32 pid = some m :=
    h.invariant_of_guard (P := fun t => Consistent hash32 t ∧ t.get hash32 pid = some m)
      (C := fun t act => ¬ t.RemovesKey act pid) ⟨hc,get⟩
      (fun t act v ht hkeeps taken => ⟨ht.1.stepped (step_stepped taken),
        get_kept ht.1 (step_stepped taken) ht.2 hkeeps⟩) keeps
  exact hinv.2

lemma PutSince.get (h : Run (step hash32) (initial sig) tr s)
    (put : PutSince hash32 tr pid m since) : s.get hash32 pid = some m := by
  obtain ⟨before,t,act,rfl,hcreates,rfl,hkeeps⟩ := put
  obtain ⟨v,hbefore,htaken,hafter⟩ := h.split_at
  have hc := consistent_of_run hbefore
  exact get_since (hc.stepped (step_stepped htaken)) (get_created hc hcreates htaken) hafter hkeeps

/-- The entry is there in every state since the put. -/
lemma PutSince.get_at (h : Run (step hash32) (initial sig) tr s)
    (put : PutSince hash32 tr pid m since) {y : System × Action} (hy : y ∈ since) :
    y.1.get hash32 pid = some m ∧ ∃ tr', Run (step hash32) (initial sig) tr' y.1 := by
  obtain ⟨before,t,act,rfl,hcreates,hm,hkeeps⟩ := put
  obtain ⟨first,rest,rfl⟩ := List.append_of_mem hy
  rw [← List.cons_append,← List.append_assoc] at h
  obtain ⟨v,hrun,-,-⟩ := h.split_at
  have hput : PutSince hash32 (before ++ (t,act) :: first) pid m first :=
    ⟨before,t,act,rfl,hcreates,hm,fun y hy => hkeeps y (List.mem_append_left _ hy)⟩
  exact ⟨hput.get hrun,_,hrun⟩

/-- What is in the table has been put there, and its key was not removed since. -/
lemma putSince_of_get (h : Run (step hash32) (initial sig) tr s) (get : s.get hash32 pid = some m) :
    ∃ since, PutSince hash32 tr pid m since := by
  induction h with
  | refl => cases get
  | @snoc tr s act s' prior taken ih =>
    have hc := consistent_of_run prior
    have hs := step_stepped taken
    obtain ⟨hlinked,howner⟩ := linked_of_get get
    rcases linked_stepped hc hs hlinked with hold | ⟨rfl,hcreates,-⟩
    · have hget : s.get hash32 pid = some m := by
        refine (get_eq_some_iff hc.table).mpr ⟨hold,?_⟩
        exact (owner_stepped hs (hc.linked_lt m hold)).symm.trans howner
      obtain ⟨since,before,t,act',rfl,hcreates,hm,hkeeps⟩ := ih hget
      refine ⟨since ++ [(s,act)],before,t,act',by simp,hcreates,hm,?_⟩
      intro y hy
      rcases List.mem_append.mp hy with hy | hy
      · exact hkeeps y hy
      · obtain rfl := List.mem_singleton.mp hy
        intro hremoves
        rw [get_removed hc hs hremoves] at get
        cases get
    · rw [howner] at hcreates
      exact ⟨[],tr,s,act,rfl,hcreates,rfl,fun y hy => absurd hy List.not_mem_nil⟩

/-- A `get_mailbox_for_pid` that returns zero held the lock of the table up to there, and has the
mailbox in the table. -/
lemma locks_of_begin {o : Oracle} {c : Syscall} (hc : Consistent hash32 s)
    (h : Stepped hash32 s (.run p o) u) (getting : (s.pc p).getting = some c)
    (next : u.pc p = c.begin m) : (s.pc p).mailbox = some m ∧ (s.pc p).role.Locks m := by
  cases h.taskStep p with
  | rests moves => exact absurd rfl moves
  | enters action => cases action
  | arrives pc | leaves pc | ends pc | messageCreated _ pc | messageFailed _ pc | countFault _ pc
  | countCopied _ pc | copied _ pc | copyFault _ pc | destroyed _ pc | removalFound _ pc =>
    rw [pc] at getting
    cases getting
  | exiting pc _ old =>
    have hcall := inCall_of_getting getting
    rw [pc,inCall_of_exits old] at hcall
    cases hcall
  | valid _ pc _ next' | invalid _ pc next' | found _ pc _ next' | outOfMemory _ pc next'
  | created _ pc _ _ _ next' | refused _ pc _ next' =>
    rw [next'] at next
    exact absurd next.symm (begin_ne c rfl)
  | @stays o m' cs k pr cs' action pc locked stays =>
    have hfits := hc.fits p
    rw [pc] at getting hfits
    cases k with
    | claimed fresh c' =>
      obtain rfl : cs = .claim := hfits
      rw [locked.2.once (.inl rfl)] at stays
      cases stays
    | _ => cases getting
  | @returned o m' cs k r action pc locked next' =>
    rw [pc] at getting ⊢
    cases k with
    | claimed fresh c' =>
      cases getting
      rw [next'] at next
      cases fresh with
      | true =>
        have hm := congrArg Pc.mailbox next
        rw [Cont.resume,mailbox_begin,mailbox_begin] at hm
        exact ⟨hm,Option.some.inj hm⟩
      | false => exact absurd next.symm (begin_ne c rfl)
    | _ => cases getting
  | @granted o m' c' action pc alive next' =>
    rw [pc] at getting ⊢
    cases getting
    rw [next'] at next
    have hm := congrArg Pc.mailbox next
    rw [mailbox_begin,mailbox_begin] at hm
    exact ⟨hm,Option.some.inj hm⟩

/-- The mailbox of a `get_mailbox_for_pid` is that of the process it was called for. -/
lemma owner_of_getting {owner : ℕ → Pid} {key : Pid} {pc : Pc} {c c' : Syscall}
    (getting : pc.getting = some c) (mailbox : pc.mailbox = some m)
    (serves : pc.Serves owner key c') : owner m = key ∧ c' = c := by
  cases pc with
  | onMailbox n cs k =>
    cases mailbox
    cases k with
    | claimed fresh c =>
      cases getting
      exact ⟨serves.1,serves.2.symm⟩
    | _ => cases getting
  | checkExiting n c =>
    cases mailbox
    cases getting
    exact ⟨serves.1,serves.2.symm⟩
  | validate | lookup => cases mailbox
  | _ => cases getting

/-- Whenever a mailbox is handed out for a process, it is the entry of that process. -/
lemma HandsOut.get (h : Run (step hash32) (initial sig) tr s)
    (hands : HandsOut hash32 s act pid m) : s.get hash32 pid = some m := by
  obtain ⟨p,o,c,u,rfl,hgetting,rfl,htaken,hnext⟩ := hands
  have hc := consistent_of_run h
  obtain ⟨hmailbox,hlocks⟩ := locks_of_begin hc (step_stepped htaken) hgetting hnext
  obtain ⟨i,c',-,hserves⟩ := (callInvariant_of_run h).serves p (inCall_of_getting hgetting)
  obtain ⟨howner,rfl⟩ := owner_of_getting hgetting hmailbox hserves
  exact (get_eq_some_iff hc.table).mpr ⟨((coherent_of_run h).locks hlocks).2,howner⟩

lemma out_of_memory {o : Oracle} {c : Syscall} (pc : s.pc p = .lookup pid c)
    (missing : s.get hash32 pid = none) (full : o.alloc = false)
    (taken : step hash32 s (.run p o) = some u) :
    u = s.setPc p (.user (some .mailboxError)) := by
  simp only [step,runTask,pc] at taken
  split_ifs at taken
  cases taken
  simp only [lookupMailbox,missing,full,Bool.false_eq_true,if_false]

theorem lookupsAgree_of_run (h : Run (step hash32) (initial sig) tr s) :
    LookupsAgree hash32 tr s where
  map := represents_of_steps (tableSteps_of_run h)
  entry pid m := by
    constructor
    · exact putSince_of_get h
    · rintro ⟨since,hput⟩
      exact hput.get h
  once pid m since put y hy := not_creates_of_get (put.get_at h hy).1
  agree pid m since put y hy n hands := by
    obtain ⟨hget,tr',hrun⟩ := put.get_at h hy
    have hget' := hands.get hrun
    rw [hget] at hget'
    exact (Option.some.inj hget').symm
  failed := by
    rintro ⟨t,act⟩ hx p o pid c u rfl hpc hmissing hfull htaken
    obtain rfl := out_of_memory hpc hmissing hfull htaken
    refine ⟨setPc_self _ _ _,rfl,rfl,registry_setPc_eq ?_⟩
    rw [hpc]
    rfl

/-- Whatever the hash of the keys, the chains are a finite map through every sequence of operations,
and in every run the lookups of each process agree on its mailbox. -/
theorem lookups_agree (hash32 : Pid → ℕ) :
    (∀ owner ops t, Steps (TableStep hash32) ⟨owner,.init⟩ ops t →
      ∃ f, Steps MapStep (∅ : PidMap) ops f ∧ t.Represents hash32 f) ∧
    ∀ sig tr s, Run (step hash32) (initial sig) tr s → LookupsAgree hash32 tr s :=
  ⟨fun _ _ _ hsteps => represents_of_steps hsteps,fun _ _ _ hrun => lookupsAgree_of_run hrun⟩

/-- With all keys in one chain, 1002 and 1003 are in `get_mailbox_for_pid` of 1001 at once. Both come
out with the mailbox that 1003 has created, and the mailbox of 1002 itself stays behind it. -/
theorem lookups_agree_on_race : ∃ (tr : List (System × Action)) (s : System),
    Run (step fun _ => 0) (initial fun _ => false) tr s ∧ s.pc 1002 = .createMessage 1 0 false ∧
      s.pc 1003 = .createMessage 1 0 false ∧ s.table 0 = [1,0] ∧
      s.get (fun _ => 0) 1001 = some 1 ∧ s.get (fun _ => 0) 1002 = some 0 ∧
      LookupsAgree (fun _ => 0) tr s := by
  obtain ⟨tr,s,hrun,htest⟩ := exists_run_of_execute (step fun _ => 0) (initial fun _ => false)
    ([.newProcess 1001 1000,.newProcess 1002 1000,.newProcess 1003 1000,
        .enter 1002 (.manageMailbox false 4)] ++ runs 1002 5 ++
      [.enter 1002 (.sendMessage 1001 0 false),.enter 1003 (.sendMessage 1001 0 false)] ++
      runs 1002 1 ++ runs 1003 3 ++ runs 1002 3)
    (fun _ s => decide (s.pc 1002 = .createMessage 1 0 false ∧ s.pc 1003 = .createMessage 1 0 false ∧
      s.table 0 = [1,0] ∧ s.get (fun _ => 0) 1001 = some 1 ∧ s.get (fun _ => 0) 1002 = some 0))
    (by decide +kernel)
  obtain ⟨hfound,hcreated,hchain,hget,hget'⟩ := of_decide_eq_true htest
  exact ⟨tr,s,hrun,hfound,hcreated,hchain,hget,hget',(lookups_agree fun _ => 0).2 _ _ _ hrun⟩

end System
end ProcessMessagePassing
