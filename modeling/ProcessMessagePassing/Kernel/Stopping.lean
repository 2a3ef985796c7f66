import ProcessMessagePassing.Kernel.Exiting
import ProcessMessagePassing.Kernel.Fifo
import ProcessMessagePassing.Kernel.Leak
import ProcessMessagePassing.Mailbox.Drain

/-! What `__manage_mailbox` reports of a mailbox that it stops. The count is copied without the
lock and the stop is a section of its own, so other calls can come in between. -/
namespace ProcessMessagePassing
open Concurrency HashTable

/-- The section takes a message for a receive, or puts one back. -/
def CallState.receives : CallState MessagePtr → Bool
  | .removeMessage _ => true
  | .removeWaiting => true
  | .addMessage _ _ head => head
  | .addWaiting _ head => head
  | _ => false

/-- The call is on its way out and nothing but this code can come of it. -/
def Pc.Returning (code : Code) : Pc → Prop
  | .onMailbox _ .unclaim (.unclaimed c) => c = code
  | .onMailbox _ .unclaim (.delivered _) => code = .ok
  | .destroyMessage _ => code = .ok
  | .user last => last = some code
  | _ => False

namespace System
variable {hash32 : Pid → ℕ} {sig : Actor → Bool} {s s' t : System} {act : Action}
  {tr tr' : List (System × Action)} {m : ℕ} {x : MessagePtr} {p q : Pid} {code : Code}

/-- The action runs a section of a receive on the mailbox. -/
def Receiving (m : ℕ) (s : System) (act : Action) : Prop :=
  ∃ a cs, s.running act = some (a,m,cs) ∧ cs.receives = true

/-- The task goes through `mailbox_remove_message` on the mailbox, or tries to. -/
def Removing (m : ℕ) (q : Pid) (s : System) (act : Action) : Prop :=
  ∃ cs, s.running act = some (.task q,m,cs) ∧ cs.Removes

/-- The step takes a message off the mailbox. -/
def takesMessage (m : ℕ) (y : System × Action) : Bool :=
  match y.1.outcome y.2 with
  | some (n,.returned (.message _)) => n == m
  | _ => false

/-- What the other threads have done since the last step of the task. -/
def sinceLast (p : Pid) (tr : List (System × Action)) : List (System × Action) :=
  (tr.reverse.takeWhile fun y => decide (y.2.moves ≠ some p)).reverse

/-- The call of the task returns the code when it runs alone, and no other code whatever runs. -/
structure Returns (hash32 : Pid → ℕ) (s : System) (q : Pid) (code : Code) : Prop where
  alone : ∀ o, ∃ later t, Run (step hash32) s later t ∧ (∀ y ∈ later, y.2 = .run q o) ∧
    t.pc q = .user (some code)
  always : ∀ later t last, Run (step hash32) s later t →
    (∀ y ∈ later, (y.1.pc q).inCall = true) → t.pc q = .user last → last = some code

/-- The call, which was about to stop the mailbox and has just done so, returns zero. The count it
wrote is the number of messages in the mailbox; of the receives that get to the mailbox from then
on, before it is flushed, as many as the count take a message and succeed if their pointers are good,
and every other one reports the stop. -/
structure StopReports (hash32 : Pid → ℕ) (p : Pid) (m : ℕ) (s s' : System) : Prop where
  returns : Returns hash32 s' p .ok
  counted : (s.written p).getLast? = some (.count (s.mailboxes m).messages.length)
  received : ∀ count later y t q, (s.written p).getLast? = some (.count count) →
    Run (step hash32) s' (later ++ [y]) t →
    (∀ z ∈ later, ∀ xs, z.1.outcome z.2 ≠ some (m,.flushed xs)) → Removing m q y.1 y.2 →
    if (later.countP (takesMessage m) : ℤ) < count then
      ∃ x ptrs, t.pc q = .copyToUser m x ptrs ∧
        ((∀ o, ptrs.writable (t.messages.read o x) = true) → Returns hash32 t q .ok)
    else Returns hash32 t q .mailboxStopped

lemma sinceLast_of_moves (tr : List (System × Action)) (s : System) (moves : act.moves = some p) :
    sinceLast p (tr ++ [(s,act)]) = [] := by
  simp [sinceLast,moves]

lemma sinceLast_of_rests (tr : List (System × Action)) (s : System) (rests : act.moves ≠ some p) :
    sinceLast p (tr ++ [(s,act)]) = sinceLast p tr ++ [(s,act)] := by
  simp [sinceLast,rests]

lemma step_unclaim {o : Oracle} {k : Cont} (pc : s.pc q = .onMailbox m .unclaim k) :
    step hash32 s (.run q o) = some (s.returnFrom q m k (s.mailboxes m).unclaim (.code .ok)) := by
  simp [step,runTask,pc,Mailbox.runnable,runSection,Mailbox.criticalSection,returnFrom]

lemma step_destroyMessage {o : Oracle} (pc : s.pc q = .destroyMessage x) :
    step hash32 s (.run q o) =
      some ({ s with messages := s.messages.destroy x }.setPc q (.user (some .ok))) := by
  simp [step,runTask,pc]

lemma step_copied {o : Oracle} {ptrs : RecievePtrs} (pc : s.pc q = .copyToUser m x ptrs)
    (writable : ptrs.writable (s.messages.read o x) = true) : step hash32 s (.run q o) =
      some ((s.setWritten q (s.written q ++ copyMessage ptrs (s.messages.read o x))).setPc q
        (.onMailbox m .unclaim (.delivered x))) := by
  simp [step,runTask,pc,copyToUser,writable,setWritten]

lemma returning_onMailbox {cs : CallState MessagePtr} {k : Cont}
    (h : (Pc.onMailbox m cs k).Returning code) :
    cs = .unclaim ∧ ∀ n r, (k.resume n r).Returning code := by
  unfold Pc.Returning at h
  split at h
  · next he =>
    cases he
    exact ⟨rfl,fun n r => congrArg some h⟩
  · next he =>
    cases he
    exact ⟨rfl,fun n r => h⟩
  · next he => cases he
  · next he => cases he
  · exact h.elim

/-- A call on its way out gets there alone. -/
lemma alone_of_returning (h : (s.pc q).Returning code) (o : Oracle) :
    ∃ later t, Run (step hash32) s later t ∧ (∀ y ∈ later, y.2 = .run q o) ∧
      t.pc q = .user (some code) := by
  unfold Pc.Returning at h
  split at h
  · next n c hpc =>
    subst c
    have hunclaim : step hash32 s (.run q o) = _ := step_unclaim hpc
    exact ⟨_,_,.single hunclaim,by simp,setPc_self _ _ _⟩
  · next n x hpc =>
    subst code
    have hunclaim : step hash32 s (.run q o) = _ := step_unclaim hpc
    have hdestroy : step hash32 (s.returnFrom q n (.delivered x) (s.mailboxes n).unclaim (.code .ok))
        (.run q o) = _ := step_destroyMessage (setPc_self _ _ _)
    exact ⟨_,_,.cons hunclaim (.single hdestroy),by simp,setPc_self _ _ _⟩
  · next x hpc =>
    subst code
    have hdestroy : step hash32 s (.run q o) = _ := step_destroyMessage hpc
    exact ⟨_,_,.single hdestroy,by simp,setPc_self _ _ _⟩
  · next last hpc =>
    subst last
    exact ⟨[],s,.refl,by simp,hpc⟩
  · exact h.elim

/-- A call on its way out stays on it. -/
lemma returning_stepped (hs : Stepped hash32 s act s') (inCall : (s.pc q).inCall = true)
    (h : (s.pc q).Returning code) : (s'.pc q).Returning code := by
  cases hs.taskStep q with
  | rests moves pc =>
    rw [pc]
    exact h
  | arrives pc | leaves pc | enters action pc | ends pc | removalFound action pc =>
    rw [pc] at inCall
    cases inCall
  | exiting pc next old =>
    rw [pc,inCall_of_exits old] at inCall
    cases inCall
  | valid action pc | invalid action pc | found action pc | created action pc
  | outOfMemory action pc | refused action pc | granted action pc | messageCreated action pc
  | messageFailed action pc | countFault action pc | countCopied action pc | copied action pc
  | copyFault action pc =>
    rw [pc] at h
    cases h
  | destroyed action pc messages next =>
    rw [pc] at h
    obtain rfl : code = .ok := h
    rw [next]
    rfl
  | @stays o n cs k pr cs' action pc locked stays next =>
    rw [pc] at h
    obtain ⟨rfl,-⟩ := returning_onMailbox h
    rw [locked.2.once (.inr (.inl rfl))] at stays
    cases stays
  | @returned o n cs k r action pc locked next =>
    rw [pc] at h
    rw [next]
    exact (returning_onMailbox h).2 n r

/-- A receive with good pointers copies its message and is then on its way out. -/
lemma copying_stepped {ptrs : RecievePtrs} (hs : Stepped hash32 s act s')
    (pc : s.pc q = .copyToUser m x ptrs)
    (writable : ∀ o, ptrs.writable (s.messages.read o x) = true) :
    s'.pc q = .copyToUser m x ptrs ∨ (s'.pc q).Returning .ok := by
  cases hs.taskStep q with
  | rests moves hpc =>
    left
    rw [hpc,pc]
  | copied action hpc good next =>
    right
    rw [next]
    rfl
  | @copyFault o n y ptrs' action hpc fault =>
    rw [pc] at hpc
    cases hpc
    rw [writable o] at fault
    cases fault
  | exiting hpc next old =>
    rw [← hpc,pc] at old
    cases old
  | arrives hpc | leaves hpc | enters action hpc | ends hpc | valid action hpc | invalid action hpc
  | found action hpc | created action hpc | outOfMemory action hpc | stays action hpc
  | returned action hpc | refused action hpc | granted action hpc | messageCreated action hpc
  | messageFailed action hpc | countFault action hpc | countCopied action hpc | destroyed action hpc
  | removalFound action hpc =>
    rw [pc] at hpc
    cases hpc

theorem returns_of_returning (h : (s.pc q).Returning code) : Returns hash32 s q code where
  alone := alone_of_returning h
  always later t last hrun hcalls hlast := by
    have hkeep : ∀ u act u', (u.pc q).Returning code → (u.pc q).inCall = true →
        step hash32 u act = some u' → (u'.pc q).Returning code :=
      fun u act u' hu hin ht => returning_stepped (step_stepped ht) hin hu
    have hend : (t.pc q).Returning code :=
      Run.invariant_of_guard (P := fun u : System => (u.pc q).Returning code) h hkeep hrun hcalls
    rw [hlast] at hend
    exact hend

/-- A receive whose pointers are good for the message that it has taken returns zero. -/
theorem returns_of_taken {ptrs : RecievePtrs} (pc : s.pc q = .copyToUser m x ptrs)
    (created : ∀ n, x = .object n → n < s.messages.created)
    (writable : ∀ o, ptrs.writable (s.messages.read o x) = true) : Returns hash32 s q .ok where
  alone o := by
    have hcopy : step hash32 s (.run q o) = _ := step_copied pc (writable o)
    have hret : (((s.setWritten q (s.written q ++ copyMessage ptrs (s.messages.read o x))).setPc q
        (.onMailbox m .unclaim (.delivered x))).pc q).Returning .ok := by
      rw [setPc_self]
      rfl
    obtain ⟨later,t,hrun,hacts,hpc⟩ := (returns_of_returning hret).alone o
    refine ⟨_,t,.cons hcopy hrun,?_,hpc⟩
    intro y hy
    rcases List.mem_cons.mp hy with rfl | hy
    · rfl
    · exact hacts y hy
  always later t last hrun hcalls hlast := by
    -- until it copies, nobody changes the message or moves the task
    have hkeep : ∀ u act u', s.messages.Extends u.messages ∧
          (u.pc q = .copyToUser m x ptrs ∨ (u.pc q).Returning .ok) →
        (u.pc q).inCall = true → step hash32 u act = some u' → s.messages.Extends u'.messages ∧
          (u'.pc q = .copyToUser m x ptrs ∨ (u'.pc q).Returning .ok) := by
      rintro u act u' ⟨hextends,hu⟩ hin ht
      have hs := step_stepped ht
      refine ⟨hextends.trans hs.extends,?_⟩
      rcases hu with hu | hu
      · refine copying_stepped hs hu fun o => ?_
        cases hx : x with
        | object n =>
          rw [hx] at writable created
          have hread := hextends.object n (created n rfl)
          exact (congrArg (fun w => ptrs.writable w) hread).trans (writable o)
        | listHead n =>
          rw [hx] at writable
          exact writable o
      · exact .inr (returning_stepped hs hin hu)
    have hend : s.messages.Extends t.messages ∧
        (t.pc q = .copyToUser m x ptrs ∨ (t.pc q).Returning .ok) :=
      Run.invariant_of_guard (P := fun u : System => s.messages.Extends u.messages ∧
        (u.pc q = .copyToUser m x ptrs ∨ (u.pc q).Returning .ok)) ⟨.refl _,.inl pc⟩ hkeep hrun hcalls
    rcases hend.2 with hcopying | hreturning
    · rw [hlast] at hcopying
      cases hcopying
    · rw [hlast] at hreturning
      exact hreturning

lemma receives_of_removes {cs : CallState MessagePtr} (h : cs.Removes) : cs.receives = true := by
  rcases h with ⟨block,rfl⟩ | rfl <;> rfl

lemma receives_of_adding {cs : CallState MessagePtr} (h : cs.adding = some (x,true)) :
    cs.receives = true := by
  cases cs with
  | addMessage | addWaiting =>
    cases h
    rfl
  | _ => cases h

lemma takesMessage_iff {a : Actor} {cs : CallState MessagePtr} {m' : Mailbox Actor MessagePtr}
    {pr : Progress MessagePtr} (running : s.running act = some (a,m,cs))
    (locked : s.Section a m cs m' pr) :
    takesMessage m (s,act) = true ↔ ∃ e, pr = .returned (.message e) := by
  have hout := outcome_eq running locked
  unfold takesMessage
  rw [hout]
  rcases pr with cs' | xs | r
  · simp
  · simp
  · cases r <;> simp

lemma takesMessage_off (off : ∀ a cs, s.running act ≠ some (a,m,cs)) :
    takesMessage m (s,act) = false := by
  unfold takesMessage outcome
  rcases hrun : s.running act with _ | ⟨a,n,cs⟩
  · rfl
  · have hn : n ≠ m := fun hn => off a cs (hn ▸ hrun)
    simp only [Option.map_some]
    generalize Mailbox.criticalSection a (s.signalPending a) (s.mailboxes n) cs = r
    obtain ⟨m',pr⟩ := r
    rcases pr with cs' | xs | ⟨c | e⟩
    · rfl
    · rfl
    · rfl
    · exact beq_false_of_ne hn

/-- The messages of the mailbox after a step are those before it and those that it adds, less the one
that it takes. -/
lemma length_stepped (hu : Uncreated s) (exact : (s.mailboxes m).Exact)
    (hs : Stepped hash32 s act s') (unflushed : ∀ xs, s.outcome act ≠ some (m,.flushed xs)) :
    (s'.mailboxes m).messages.length + (if takesMessage m (s,act) = true then 1 else 0) =
      (s.mailboxes m).messages.length + (s.adds m false act).toList.length +
        (s.adds m true act).toList.length := by
  by_cases hrun : ∃ a cs, s.running act = some (a,m,cs)
  · obtain ⟨a,cs,running⟩ := hrun
    obtain ⟨pr,locked⟩ := hs.section_of_running running
    have htakes := takesMessage_iff running locked
    cases locked.2.listStep with
    | same messages taken flushed adding =>
      have hadds : ∀ head, s.adds m head act = none := by
        intro head
        apply adds_eq_none running locked
        right
        rcases adding with hnone | hstays
        · right
          intro x hx
          rw [hnone] at hx
          cases hx
        · left
          rintro rfl
          exact hstays rfl
      have htakes' : ¬ takesMessage m (s,act) = true := fun h => by
        obtain ⟨e,he⟩ := htakes.mp h
        exact taken e he
      rw [messages,hadds,hadds,if_neg htakes']
      rfl
    | @added x head adding ended messages =>
      subst pr
      have htakes' : ¬ takesMessage m (s,act) = true := fun h => by
        obtain ⟨e,he⟩ := htakes.mp h
        cases he
      have hadds : s.adds m head act = some x := (adds_eq_some running locked).mpr ⟨rfl,rfl,adding⟩
      have hother : s.adds m (!head) act = none := by
        refine adds_eq_none running locked (.inr (.inr fun y hy => ?_))
        rw [adding] at hy
        cases head <;> cases hy
      rw [messages,if_neg htakes']
      cases head with
      | true =>
        rw [hadds,show s.adds m false act = none from hother]
        rfl
      | false =>
        rw [hadds,show s.adds m true act = none from hother]
        simp
    | refused adding ended code messages =>
      subst pr
      have hadds : ∀ head, s.adds m head act = none := fun head =>
        adds_eq_none running locked (.inr (.inl fun h => code (by cases h; rfl)))
      have htakes' : ¬ takesMessage m (s,act) = true := fun h => by
        obtain ⟨e,he⟩ := htakes.mp h
        cases he
      rw [messages,hadds,hadds,if_neg htakes']
      rfl
    | taken ended messages =>
      subst pr
      have hadds : ∀ head, s.adds m head act = none := fun head =>
        adds_eq_none running locked (.inr (.inl fun h => by cases h))
      obtain ⟨-,hcount,-⟩ := locked.2.takes
      obtain ⟨x,rest,hfront,-⟩ := Mailbox.exists_front exact hcount
      rw [messages,hadds,hadds,if_pos (htakes.mpr ⟨_,rfl⟩),hfront]
      rfl
    | flushed ended =>
      subst pr
      exact absurd (outcome_eq running locked) (unflushed _)
  · have hoff : ∀ a cs, s.running act ≠ some (a,m,cs) := fun a cs h => hrun ⟨a,cs,h⟩
    rw [messages_off hu hs hoff,(events_off hs hoff false).1,(events_off hs hoff true).1,
      takesMessage_off hoff]
    rfl

/-- What is not done by a receive takes nothing and puts nothing back. -/
lemma length_of_not_receiving (hu : Uncreated s) (exact : (s.mailboxes m).Exact)
    (hs : Stepped hash32 s act s') (unflushed : ∀ xs, s.outcome act ≠ some (m,.flushed xs))
    (alone : ¬ Receiving m s act) : (s'.mailboxes m).messages.length =
      (s.mailboxes m).messages.length + (s.adds m false act).toList.length := by
  have hback : s.adds m true act = none := by
    rw [Option.eq_none_iff_forall_ne_some]
    intro x hx
    obtain ⟨a,cs,running,-,hadding⟩ := hs.section_of_adds hx
    exact alone ⟨a,cs,running,receives_of_adding hadding⟩
  have htakes : ¬ takesMessage m (s,act) = true := by
    intro h
    by_cases hrun : ∃ a cs, s.running act = some (a,m,cs)
    · obtain ⟨a,cs,running⟩ := hrun
      obtain ⟨pr,locked⟩ := hs.section_of_running running
      obtain ⟨e,rfl⟩ := (takesMessage_iff running locked).mp h
      exact alone ⟨a,cs,running,receives_of_removes locked.2.removes⟩
    · rw [takesMessage_off fun a cs he => hrun ⟨a,cs,he⟩] at h
      cases h
  have hlength := length_stepped hu exact hs unflushed
  rw [hback,if_neg htakes] at hlength
  exact hlength

/-- A stopped mailbox only loses messages, to receives. -/
lemma length_of_stopped (hu : Uncreated s) (exact : (s.mailboxes m).Exact)
    (hs : Stepped hash32 s act s') (unflushed : ∀ xs, s.outcome act ≠ some (m,.flushed xs))
    (stopped : (s.mailboxes m).stopped ≠ 0) :
    (s'.mailboxes m).messages.length + (if takesMessage m (s,act) = true then 1 else 0) =
      (s.mailboxes m).messages.length := by
  have hadds : ∀ head, s.adds m head act = none := by
    intro head
    rw [Option.eq_none_iff_forall_ne_some]
    intro x hx
    obtain ⟨a,cs,running,locked,hadding⟩ := hs.section_of_adds hx
    exact stopped (locked.2.running_of_added hadding)
  have hlength := length_stepped hu exact hs unflushed
  rw [hadds,hadds] at hlength
  exact hlength

/-- A stopped mailbox stays stopped. -/
lemma stopped_stepped (hc : Consistent hash32 s) (hu : Uncreated s) (hs : Stepped hash32 s act s')
    (stopped : (s.mailboxes m).stopped ≠ 0) : (s'.mailboxes m).stopped ≠ 0 := by
  cases hs.mailboxStep m with
  | same mailbox =>
    rw [mailbox]
    exact stopped
  | created new =>
    rw [hu m (Nat.le_of_eq new.symm)] at stopped
    exact absurd rfl stopped
  | @run a cs pr running locked =>
    rw [locked.2.stopped_eq]
    cases hw : Mailbox.writesStopped cs with
    | none => exact stopped
    | some st =>
      rcases hc.status_cases (running_eq_some_iff.mp running).2 hw with rfl | ⟨rfl,-⟩
      · cases hw
        exact stoppedFlag_ne_zero
      · exact exiting_status_ne_zero

lemma running_before (prior : Run (step hash32) (initial sig) tr s)
    (taken : step hash32 s act = some s') (running : (s'.mailboxes m).stopped = 0) :
    (s.mailboxes m).stopped = 0 := by
  by_contra hstopped
  exact stopped_stepped (consistent_of_run prior) (uncreated_of_run prior) (step_stepped taken)
    hstopped running

/-- As long as a mailbox runs its count is right. -/
theorem exact_of_running (h : Run (step hash32) (initial sig) tr s)
    (running : (s.mailboxes m).stopped = 0) : (s.mailboxes m).Exact := by
  induction h with
  | refl => exact Mailbox.exact_create 0
  | @snoc tr s act s' prior taken ih =>
    have hrunning := running_before prior taken running
    exact exact_stepped (ih hrunning) (step_stepped taken) (not_flushed_of_running prior hrunning act)

lemma stop_of_resume {n : ℕ} {r : Ret MessagePtr} {k : Cont} {status : ℕ} :
    k.resume n r ≠ .onMailbox m (.stop status) .stopped := by
  intro h
  cases k with
  | claimed fresh c =>
    cases fresh with
    | true => cases c <;> cases h
    | false => cases h
  | removed ptrs => cases r <;> cases h
  | added | refused | putBack | stopped | unclaimed | delivered | hook => cases h

/-- A call that is about to stop the mailbox has copied the count, and since then the mailbox has
grown by what was added. -/
theorem counted_of_run (h : Run (step hash32) (initial sig) tr s)
    (stops : s.pc p = .onMailbox m (.stop stoppedFlag) .stopped)
    (running : (s.mailboxes m).stopped = 0)
    (alone : ∀ y ∈ sinceLast p tr, ¬ Receiving m y.1 y.2) :
    ∃ count : ℤ, (s.written p).getLast? = some (.count count) ∧
      count + (accepted m (sinceLast p tr)).length = (s.mailboxes m).messages.length := by
  induction h with
  | refl => cases stops
  | @snoc tr s act s' prior taken ih =>
    have hs := step_stepped taken
    have hrunning := running_before prior taken running
    have hexact := exact_of_running prior hrunning
    cases hs.taskStep p with
    | rests moves pc written =>
      rw [sinceLast_of_rests tr s moves] at alone ⊢
      obtain ⟨count,hcount,hlength⟩ := ih (pc ▸ stops) hrunning fun y hy =>
        alone y (List.mem_append_left _ hy)
      refine ⟨count,by rw [written,hcount],?_⟩
      have hgrown := length_of_not_receiving (uncreated_of_run prior) hexact hs
        (not_flushed_of_running prior hrunning act) (alone (s,act) (by simp))
      rw [accepted_snoc,List.length_append,hgrown]
      omega
    | @countCopied o n stop count action pc writable next written =>
      subst act
      have hidle : s.running (.run p o) = none := by
        simp [System.running,Action.actor,call_task pc,Pc.call]
      have hsame : (s'.mailboxes m).messages = (s.mailboxes m).messages := by
        apply messages_off (uncreated_of_run prior) hs
        intro a cs hrun
        rw [hidle] at hrun
        cases hrun
      cases stop with
      | false =>
        rw [stops] at next
        cases next
      | true =>
        rw [stops] at next
        cases next
        rw [sinceLast_of_moves tr s rfl,hsame]
        refine ⟨(s.mailboxes m).messageCount,by rw [written,List.getLast?_append]; rfl,?_⟩
        rw [hexact]
        exact add_zero _
    | @stays o n cs k pr cs' action pc locked stays next =>
      -- the stop is one section
      have hfits := (consistent_of_run prior).fits p
      rw [stops] at next
      cases next
      rw [pc] at hfits
      rw [locked.2.once (.inr (.inr ⟨_,hfits⟩))] at stays
      cases stays
    | returned action pc locked next =>
      rw [stops] at next
      exact absurd next.symm stop_of_resume
    | @granted o n c action pc alive next =>
      rw [stops] at next
      cases c <;> cases next
    | exiting pc next old new off | ends pc next exits off =>
      rw [← next,stops] at off
      cases off
    | arrives pc next | leaves pc next | enters action pc next | valid action pc valid next
    | invalid action pc next | found action pc found next
    | created action pc missing memory owner next | outOfMemory action pc next
    | refused action pc exiting next | messageCreated action pc made next
    | messageFailed action pc failed next | countFault action pc fault next
    | copied action pc writable next | copyFault action pc fault next
    | destroyed action pc messages next | removalFound action pc found next =>
      rw [stops] at next
      cases next

/-- What the receives take from a stopped mailbox is what is missing from it afterwards. -/
theorem drained_of_run (h : Run (step hash32) (initial sig) tr s)
    (stopped : (s.mailboxes m).stopped ≠ 0) (exact : (s.mailboxes m).Exact)
    (later : Run (step hash32) s tr' t)
    (unflushed : ∀ z ∈ tr', ∀ xs, z.1.outcome z.2 ≠ some (m,.flushed xs)) :
    (t.mailboxes m).stopped ≠ 0 ∧ (t.mailboxes m).Exact ∧
      (t.mailboxes m).messages.length + tr'.countP (takesMessage m) =
        (s.mailboxes m).messages.length := by
  induction later with
  | refl => exact ⟨stopped,exact,rfl⟩
  | @snoc tr' u act u' prior taken ih =>
    obtain ⟨hstopped,hexact,hlength⟩ := ih fun z hz => unflushed z (List.mem_append_left _ hz)
    have hbefore := h.append prior
    have hs := step_stepped taken
    have hlast := unflushed (u,act) (by simp)
    refine ⟨stopped_stepped (consistent_of_run hbefore) (uncreated_of_run hbefore) hs hstopped,
      exact_stepped hexact hs hlast,?_⟩
    have hstep := length_of_stopped (uncreated_of_run hbefore) hexact hs hlast hstopped
    rw [List.countP_append,List.countP_singleton]
    omega

/-- A receive that gets to a stopped mailbox takes the first message, or is on its way out with the
code for a stopped mailbox. -/
lemma removing_stepped (hc : Consistent hash32 s) (hs : Stepped hash32 s act s')
    (stopped : (s.mailboxes m).stopped ≠ 0) (exact : (s.mailboxes m).Exact)
    (removing : Removing m q s act) :
    (s.mailboxes m).messages = [] ∧ s'.pc q = .unclaim m .mailboxStopped ∨
      ∃ x rest ptrs, (s.mailboxes m).messages = x :: rest ∧ s'.pc q = .copyToUser m x ptrs := by
  obtain ⟨cs,running,hremoves⟩ := removing
  obtain ⟨k,pr,ts⟩ := hs.task_section running
  have hfits := hc.fits q
  rw [ts.pc] at hfits
  obtain ⟨ptrs,rfl⟩ := hfits.removed hremoves
  obtain ⟨rfl,-⟩ := ts.locked.2.remove_drains stopped exact hremoves
  rcases ts.next with ⟨cs',hstays,-⟩ | ⟨r,hr,hnext⟩
  · cases hstays
  · cases hr
    cases hmessages : (s.mailboxes m).messages with
    | nil =>
      left
      rw [hnext,hmessages]
      exact ⟨rfl,rfl⟩
    | cons x rest =>
      right
      refine ⟨x,rest,ptrs,rfl,?_⟩
      rw [hnext,hmessages]
      rfl

/-- The stop writes its status and lets the call return zero. -/
lemma stop_stepped {o : Oracle} (stops : s.pc p = .onMailbox m (.stop stoppedFlag) .stopped)
    (taken : step hash32 s (.run p o) = some s') :
    s'.pc p = .unclaim m .ok ∧ s'.mailboxes m = (s.mailboxes m).stop stoppedFlag := by
  have hs' : s.returnFrom p m .stopped ((s.mailboxes m).stop stoppedFlag) (.code .ok) = s' := by
    simpa [step,runTask,stops,Mailbox.runnable,runSection,Mailbox.criticalSection,returnFrom] using taken
  subst s'
  exact ⟨setPc_self _ _ _,setMailbox_self _ _ _⟩

/-- A stop reports what is left exactly when no send adds a message between the copy of the count
and the stop. -/
theorem stopReports_iff (h : Run (step hash32) (initial sig) tr s)
    (stops : s.pc p = .onMailbox m (.stop stoppedFlag) .stopped)
    (running : (s.mailboxes m).stopped = 0)
    (alone : ∀ y ∈ sinceLast p tr, ¬ Receiving m y.1 y.2) {o : Oracle}
    (taken : step hash32 s (.run p o) = some s') :
    StopReports hash32 p m s s' ↔ ∀ y ∈ sinceLast p tr, ∀ x, y.1.adds m false y.2 ≠ some x := by
  obtain ⟨count,hcount,hlength⟩ := counted_of_run h stops running alone
  have hnone : (∀ y ∈ sinceLast p tr, ∀ x, y.1.adds m false y.2 ≠ some x) ↔
      accepted m (sinceLast p tr) = [] := by
    unfold accepted
    simp [List.filterMap_eq_nil_iff,Option.eq_none_iff_forall_ne_some]
  rw [hnone]
  constructor
  · intro hreports
    have hcounted := hreports.counted
    rw [hcount] at hcounted
    cases hcounted
    apply List.length_eq_zero_iff.mp
    omega
  · intro hadded
    rw [hadded] at hlength
    obtain rfl : count = (s.mailboxes m).messages.length := by
      rw [← hlength]
      exact (add_zero _).symm
    obtain ⟨hpc,hmailbox⟩ := stop_stepped stops taken
    have hstopped : (s'.mailboxes m).stopped ≠ 0 := by
      rw [hmailbox]
      exact stoppedFlag_ne_zero
    have hexact : (s'.mailboxes m).Exact := by
      rw [hmailbox]
      exact exact_of_running h running
    refine ⟨returns_of_returning (by rw [hpc]; rfl),hcount,?_⟩
    intro count' later y t q hcount' hrun hunflushed hremoving
    rw [hcount] at hcount'
    cases hcount'
    obtain ⟨hlater,htaken⟩ := hrun.last
    have hbefore := (h.snoc taken).append hlater
    obtain ⟨hstill,hexact',hleft⟩ := drained_of_run (h.snoc taken) hstopped hexact hlater hunflushed
    rw [hmailbox] at hleft
    change _ = (s.mailboxes m).messages.length at hleft
    rcases removing_stepped (consistent_of_run hbefore) (step_stepped htaken) hstill hexact' hremoving with
      ⟨hmessages,hpc'⟩ | ⟨x,rest,ptrs,hmessages,hpc'⟩
    · rw [hmessages] at hleft
      rw [if_neg (by rw [← hleft]; simp)]
      exact returns_of_returning (by rw [hpc']; rfl)
    · rw [hmessages] at hleft
      rw [if_pos (by rw [← hleft]; simp)]
      refine ⟨x,ptrs,hpc',fun hwritable => returns_of_taken hpc' ?_ hwritable⟩
      rintro n rfl
      have hinv := custodyInvariant_of_run (hbefore.snoc htaken)
      exact (hinv.custody.live (.call q) n (congrArg Pc.holding hpc')).1

/-- `Receiving` as a test. -/
def isReceiving (m : ℕ) (y : System × Action) : Bool :=
  (y.1.running y.2).any fun (_,n,cs) => decide (n = m) && cs.receives

lemma not_receiving_of_test {y : System × Action} (h : isReceiving m y = false) :
    ¬ Receiving m y.1 y.2 := by
  rintro ⟨a,cs,running,hreceives⟩
  simp [isReceiving,running,hreceives] at h

/-- A message is added before the count is copied, and another send comes too late. -/
theorem stopReports_one : ∃ (tr : List (System × Action)) (s s' : System),
    Run (step goldenHash32) (initial fun _ => false) tr s ∧
      StopReports goldenHash32 1001 0 s s' ∧ (s.mailboxes 0).messages = [.object 0] := by
  obtain ⟨tr,s,hrun,htest⟩ := exists_run_of_execute (step goldenHash32) (initial fun _ => false)
    ([.newProcess 1001 1000,.clone 1001 1002] ++
      [.enter 1002 (.sendMessage 1001 0 false)] ++ runs 1002 6 ++
      [.enter 1001 (.manageMailbox true 4)] ++ runs 1001 5 ++
      [.enter 1002 (.sendMessage 1001 0 false)] ++ runs 1002 5)
    (fun tr s => decide (s.pc 1001 = .onMailbox 0 (.stop stoppedFlag) .stopped ∧
        (s.mailboxes 0).stopped = 0 ∧ (s.mailboxes 0).messages = [.object 0]) &&
      (sinceLast 1001 tr).all (fun y => !isReceiving 0 y && decide (y.1.adds 0 false y.2 = none)) &&
      (step goldenHash32 s (.run 1001 .clear)).isSome) (by decide +kernel)
  rw [Bool.and_eq_true,Bool.and_eq_true] at htest
  obtain ⟨⟨hstate,hmid⟩,htaken⟩ := htest
  obtain ⟨hstops,hrunning,hmessages⟩ := of_decide_eq_true hstate
  obtain ⟨s',htaken⟩ := Option.isSome_iff_exists.mp htaken
  have hmid' : ∀ y ∈ sinceLast 1001 tr, ¬ Receiving 0 y.1 y.2 ∧ y.1.adds 0 false y.2 = none := by
    intro y hy
    obtain ⟨halone,hadds⟩ := Bool.and_eq_true_iff.mp (List.all_eq_true.mp hmid y hy)
    exact ⟨not_receiving_of_test (Bool.not_eq_true' _ ▸ halone),of_decide_eq_true hadds⟩
  refine ⟨tr,s,s',hrun,?_,hmessages⟩
  refine (stopReports_iff hrun hstops hrunning (fun y hy => (hmid' y hy).1) htaken).mpr ?_
  intro y hy x hx
  rw [(hmid' y hy).2] at hx
  cases hx

/-- Thread 1001 copies the count of the empty mailbox, thread 1002 sends it a message, and then it is
stopped with that message in it. -/
theorem exists_stop_misreporting : ∃ (tr : List (System × Action)) (s s' : System),
    Run (step goldenHash32) (initial fun _ => false) tr s ∧
      s.pc 1001 = .onMailbox 0 (.stop stoppedFlag) .stopped ∧ (s.mailboxes 0).stopped = 0 ∧
      (∀ y ∈ sinceLast 1001 tr, ¬ Receiving 0 y.1 y.2) ∧
      step goldenHash32 s (.run 1001 .clear) = some s' ∧
      ¬ StopReports goldenHash32 1001 0 s s' := by
  obtain ⟨tr,s,hrun,htest⟩ := exists_run_of_execute (step goldenHash32) (initial fun _ => false)
    ([.newProcess 1001 1000,.clone 1001 1002] ++
      [.enter 1001 (.manageMailbox true 4)] ++ runs 1001 4 ++
      [.enter 1002 (.sendMessage 1001 0 false)] ++ runs 1002 6)
    (fun tr s => decide (s.pc 1001 = .onMailbox 0 (.stop stoppedFlag) .stopped ∧
        (s.mailboxes 0).stopped = 0 ∧ (s.mailboxes 0).messages = [.object 0] ∧
        s.written 1001 = [.count 0]) &&
      (sinceLast 1001 tr).all (fun y => !isReceiving 0 y) &&
      (step goldenHash32 s (.run 1001 .clear)).isSome) (by decide +kernel)
  rw [Bool.and_eq_true,Bool.and_eq_true] at htest
  obtain ⟨⟨hstate,hmid⟩,htaken⟩ := htest
  obtain ⟨hstops,hrunning,hmessages,hwritten⟩ := of_decide_eq_true hstate
  obtain ⟨s',htaken⟩ := Option.isSome_iff_exists.mp htaken
  refine ⟨tr,s,s',hrun,hstops,hrunning,?_,htaken,?_⟩
  · intro y hy
    have halone := List.all_eq_true.mp hmid y hy
    exact not_receiving_of_test (Bool.not_eq_true' _ ▸ halone)
  · intro hreports
    have hcounted := hreports.counted
    rw [hwritten,hmessages] at hcounted
    cases hcounted

end System
end ProcessMessagePassing
