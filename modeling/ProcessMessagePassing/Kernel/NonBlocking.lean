import ProcessMessagePassing.Kernel.Calls

/-! Which calls can sleep in the queue of a mailbox. A call that was made without `block` goes
through the section of `mailbox_add_message` with `block` set when it puts a message back. -/
namespace ProcessMessagePassing
open Concurrency HashTable

/-- The caller sleeps in `modify_queue`, and counts in `waiting`. -/
def CallState.asleep {μ : Type} : CallState μ → Bool
  | .addWaiting _ _ => true
  | .removeWaiting => true
  | _ => false

def Pc.asleep : Pc → Bool
  | .onMailbox _ cs _ => cs.asleep
  | _ => false

/-- The call is a send or a receive that is not to block. -/
def Syscall.nonBlocking : Syscall → Bool
  | .sendMessage _ _ block => !block
  | .recieveMessage _ block => !block
  | .manageMailbox _ _ => false

namespace Mailbox
variable {α μ : Type} [DecidableEq α] {a : α} {sig : Bool} {m m' : Mailbox α μ} {cs cs' : CallState μ}
  {pr : Progress μ}

omit [DecidableEq α] in
/-- The section gets to `atomic_inc(&mailbox->waiting)`. -/
def incrementsWaiting (m : Mailbox α μ) : CallState μ → Bool
  | .addMessage _ block _ => decide (m.stopped = 0) && m.full && block
  | .removeMessage block => decide (m.stopped = 0) && decide (m.messageCount = 0) && block
  | _ => false

/-- From the increment on the section is that of a sleeper. -/
theorem criticalSection_of_incrementsWaiting (a : α) (sig : Bool)
    (h : m.incrementsWaiting cs = true) : ∃ cs', cs'.asleep = true ∧
      criticalSection a sig m cs = criticalSection a sig { m with waiting := m.waiting + 1 } cs' := by
  cases cs with
  | addMessage x block head =>
    simp only [incrementsWaiting,Bool.and_eq_true,decide_eq_true_eq] at h
    obtain ⟨⟨hrunning,hfull⟩,rfl⟩ := h
    exact ⟨.addWaiting x head,rfl,by simp [criticalSection,addMessage,hrunning,hfull]⟩
  | removeMessage block =>
    simp only [incrementsWaiting,Bool.and_eq_true,decide_eq_true_eq] at h
    obtain ⟨⟨hrunning,hempty⟩,rfl⟩ := h
    exact ⟨.removeWaiting,rfl,by simp [criticalSection,removeMessage,hrunning,hempty]⟩
  | _ => cases h

/-- A caller that falls asleep has slept before, or has just incremented `waiting`. -/
lemma Locked.asleep_cases (h : Locked a sig m cs m' pr) (stays : pr.callState = some cs')
    (asleep : cs'.asleep = true) : cs.asleep = true ∨ m.incrementsWaiting cs = true := by
  cases h with
  | addSleep running full quiet =>
    right
    simp [incrementsWaiting,running,(full_iff m).mpr full]
  | removeSleep running empty quiet =>
    right
    simp [incrementsWaiting,running,empty]
  | addAgain | removeAgain => exact .inl rfl
  | destroyStop | flushSleep | flushNow | unclaimedSleep | unclaimedNow =>
    cases stays
    cases asleep
  | _ => cases stays

end Mailbox

lemma asleep_begin (m : ℕ) (c : Syscall) : (c.begin m).asleep = false := by cases c <;> rfl

lemma asleep_resume (m : ℕ) (r : Ret MessagePtr) (k : Cont) : (k.resume m r).asleep = false := by
  cases k with
  | claimed fresh c =>
    cases fresh with
    | true => exact asleep_begin m c
    | false => rfl
  | removed ptrs => cases r <;> rfl
  | added | refused | putBack | stopped | unclaimed | delivered | hook => rfl

lemma asleep_off {c : Pc} (h : c.mailbox = none) : c.asleep = false := by
  cases c with
  | onMailbox m cs k => cases h
  | _ => rfl

namespace System
variable {hash32 : Pid → ℕ} {sig : Actor → Bool} {s s' : System} {act : Action}
  {tr : List (System × Action)}

/-- A task increments `waiting` of a mailbox in a call that is not to block. -/
def IncrementsWaiting (tr : List (System × Action)) (s : System) (act : Action) : Prop :=
  ∃ p o i c m cs k, act = .run p o ∧ callOf p tr = some (i,c) ∧ c.nonBlocking = true ∧
    s.pc p = .onMailbox m cs k ∧ (s.mailboxes m).incrementsWaiting cs = true

/-- No task sleeps in the queue of a mailbox in a call that is not to block. -/
def NoneAsleep (tr : List (System × Action)) (s : System) : Prop :=
  ∀ p i c, callOf p tr = some (i,c) → c.nonBlocking = true → (s.pc p).asleep = false

/-- In no step and in no state of the run a call that is not to block becomes a waiter. -/
structure NonBlockingNeverWaits (tr : List (System × Action)) (s : System) : Prop where
  increments : ∀ i x, tr[i]? = some x → ¬ IncrementsWaiting (tr.take i) x.1 x.2
  asleep : ∀ i t, (tr.map Prod.fst ++ [s])[i]? = some t → NoneAsleep (tr.take i) t

/-- A receive that is not to block puts its message back into a mailbox that is full and runs. -/
def PutsBackIntoFull (tr : List (System × Action)) (s : System) (act : Action) : Prop :=
  ∃ p o i ptrs m x head, act = .run p o ∧ callOf p tr = some (i,.recieveMessage ptrs false) ∧
    s.pc p = .onMailbox m (.addMessage x true head) .putBack ∧ (s.mailboxes m).stopped = 0 ∧
    (s.mailboxes m).full = true

/-- The only way for a call that is not to block to wait is to put a message back. -/
lemma incrementsWaiting_iff (calls : CallInvariant tr s) (hc : Consistent hash32 s) :
    IncrementsWaiting tr s act ↔ PutsBackIntoFull tr s act := by
  constructor
  · rintro ⟨p,o,i,c,m,cs,k,rfl,hcall,hblock,hpc,hincrements⟩
    have hfits := hc.fits p
    rw [hpc] at hfits
    -- every point of the call but the put-back has the flag of the call
    have hserves : (Pc.onMailbox m cs k).inCall = true →
        (Pc.onMailbox m cs k).Serves s.owner (s.key p c) c := by
      intro hbusy
      obtain ⟨i',c',hcall',hserves⟩ := calls.serves p (hpc ▸ hbusy)
      rw [hcall] at hcall'
      cases hcall'
      exact hpc ▸ hserves
    cases k with
    | added =>
      obtain ⟨y,hy⟩ := hfits
      obtain ⟨-,dest,len,block,rfl,hblocks⟩ := hserves rfl
      cases cs with
      | addMessage x b head =>
        obtain rfl : b = block := hblocks
        simp only [Mailbox.incrementsWaiting,Bool.and_eq_true] at hincrements
        rw [hincrements.2] at hblock
        cases hblock
      | removeMessage b => cases hy
      | _ => cases hincrements
    | removed ptrs =>
      obtain ⟨-,block,rfl,hblocks⟩ := hserves rfl
      rcases hfits with ⟨b,rfl⟩ | rfl
      · obtain rfl : b = block := hblocks
        simp only [Mailbox.incrementsWaiting,Bool.and_eq_true] at hincrements
        rw [hincrements.2] at hblock
        cases hblock
      · cases hincrements
    | putBack =>
      obtain ⟨y,hy⟩ := hfits
      obtain ⟨-,ptrs,block,rfl⟩ := hserves rfl
      cases cs with
      | addMessage x b head =>
        simp only [Mailbox.incrementsWaiting,Bool.and_eq_true,decide_eq_true_eq] at hincrements
        obtain ⟨⟨hrunning,hfull⟩,rfl⟩ := hincrements
        cases block with
        | true => cases hblock
        | false => exact ⟨p,o,i,ptrs,m,x,head,rfl,hcall,hpc,hrunning,hfull⟩
      | removeMessage b => cases hy
      | _ => cases hincrements
    | claimed | refused | stopped | unclaimed | delivered | hook =>
      cases hfits
      cases hincrements
  · rintro ⟨p,o,i,ptrs,m,x,head,rfl,hcall,hpc,hrunning,hfull⟩
    refine ⟨p,o,i,_,m,_,_,rfl,hcall,rfl,hpc,?_⟩
    simp [Mailbox.incrementsWaiting,hrunning,hfull]

lemma NoneAsleep.stepped (no : NoneAsleep tr s) (h : Stepped hash32 s act s')
    (quiet : ¬ IncrementsWaiting tr s act) : NoneAsleep (tr ++ [(s,act)]) s' := by
  intro p i c hcall hblock
  cases h.taskStep p with
  | rests moves pc =>
    rw [callOf_kept tr s (enters_of_rests moves)] at hcall
    rw [pc]
    exact no p i c hcall hblock
  | arrives pc next | leaves pc next | enters action pc next | valid action pc valid next
  | invalid action pc next | found action pc found next
  | created action pc missing memory owner next | outOfMemory action pc next
  | refused action pc exiting next | messageCreated action pc made next
  | messageFailed action pc failed next | countFault action pc fault next
  | copied action pc writable next | copyFault action pc fault next
  | destroyed action pc messages next | removalFound action pc found next =>
    rw [next]
    rfl
  | ends pc next exits off | exiting pc next old new off =>
    rw [next,asleep_off off]
  | granted action pc alive next => rw [next,asleep_begin]
  | countCopied action pc writable next =>
    rw [next]
    split <;> rfl
  | returned action pc locked next => rw [next,asleep_resume]
  | @stays o m cs k pr cs' action pc locked stays next =>
    subst act
    rw [callOf_run] at hcall
    rw [next]
    apply Bool.eq_false_of_not_eq_true
    intro hasleep
    rcases locked.2.asleep_cases stays hasleep with hold | hincrements
    · have hawake := no p i c hcall hblock
      rw [pc] at hawake
      exact absurd (hold.symm.trans hawake) nofun
    · exact quiet ⟨p,o,i,c,m,cs,k,rfl,hcall,hblock,pc,hincrements⟩

lemma noneAsleep_of_run (h : Run (step hash32) (initial sig) tr s)
    (quiet : ∀ i x, tr[i]? = some x → ¬ IncrementsWaiting (tr.take i) x.1 x.2) :
    NoneAsleep tr s := by
  induction h with
  | refl =>
    intro p i c hcall
    cases hcall
  | @snoc tr s act s' prior taken ih =>
    apply NoneAsleep.stepped _ (step_stepped taken)
    · have hlast := quiet tr.length (s,act) (by simp)
      rwa [List.take_left'] at hlast
      rfl
    · apply ih
      intro i x hx
      have hi : i < tr.length := (List.getElem?_eq_some_iff.mp hx).1
      have hboth := quiet i x (by rw [List.getElem?_append_left hi,hx])
      rwa [List.take_append_of_le_length (Nat.le_of_lt hi)] at hboth

/-- In a run, the calls that are not to block never wait just in case none of their receives puts
a message back into a full mailbox that runs. -/
theorem nonBlockingNeverWaits_iff (h : Run (step hash32) (initial sig) tr s) :
    NonBlockingNeverWaits tr s ↔
      ∀ i x, tr[i]? = some x → ¬ PutsBackIntoFull (tr.take i) x.1 x.2 := by
  have hiff : ∀ i x, tr[i]? = some x →
      (IncrementsWaiting (tr.take i) x.1 x.2 ↔ PutsBackIntoFull (tr.take i) x.1 x.2) := by
    intro i x hx
    have hbefore := h.take_entry hx
    exact incrementsWaiting_iff (callInvariant_of_run hbefore) (consistent_of_run hbefore)
  constructor
  · intro hnever i x hx hputs
    exact hnever.increments i x hx ((hiff i x hx).mpr hputs)
  · intro hroom
    have hquiet : ∀ i x, tr[i]? = some x → ¬ IncrementsWaiting (tr.take i) x.1 x.2 := by
      intro i x hx hincrements
      exact hroom i x hx ((hiff i x hx).mp hincrements)
    refine ⟨hquiet,fun i t ht => noneAsleep_of_run (h.take ht) fun j x hx => ?_⟩
    have hj : j < (tr.take i).length := (List.getElem?_eq_some_iff.mp hx).1
    rw [List.length_take] at hj
    rw [List.getElem?_take_of_lt (by omega)] at hx
    rw [List.take_take,Nat.min_eq_left (by omega)]
    exact hquiet j x hx

/-- The action is no put-back of a message into a full mailbox. -/
def hasRoom (x : System × Action) : Bool :=
  match x.2 with
  | .run p _ =>
    match x.1.pc p with
    | .onMailbox m _ .putBack => !(x.1.mailboxes m).full
    | _ => true
  | _ => true

lemma not_putsBackIntoFull (h : hasRoom (s,act) = true) : ¬ PutsBackIntoFull tr s act := by
  rintro ⟨p,o,i,ptrs,m,x,head,rfl,-,hpc,-,hfull⟩
  simp [hasRoom,hpc,hfull] at h

/-- A receive that is not to block fails for its bad pointer and puts its message back, with room
in the mailbox. -/
theorem neverWaits_after_fault : ∃ (tr : List (System × Action)) (s : System),
    Run (step goldenHash32) (initial fun _ => false) tr s ∧ s.pc 1001 = .user (some .msgArgError) ∧
      NonBlockingNeverWaits tr s := by
  obtain ⟨tr,s,hrun,htest⟩ := exists_run_of_execute (step goldenHash32) (initial fun _ => false)
    ([.newProcess 1001 1000,.enter 1001 (.sendMessage 1001 0 false)] ++ runs 1001 6 ++
      [.enter 1001 (.recieveMessage ⟨0,0,4⟩ false)] ++ runs 1001 8)
    (fun tr s => decide (s.pc 1001 = .user (some .msgArgError)) && tr.all hasRoom)
    (by decide +kernel)
  rw [Bool.and_eq_true] at htest
  obtain ⟨hreturned,hroom⟩ := htest
  refine ⟨tr,s,hrun,of_decide_eq_true hreturned,(nonBlockingNeverWaits_iff hrun).mpr ?_⟩
  intro i x hx
  exact not_putsBackIntoFull (List.all_eq_true.mp hroom x (List.mem_of_getElem? hx))

/-- A receive of process 1001 that is not to block takes one of 32 messages and cannot deliver it;
before it puts the message back, thread 1002 of the same process sends another. -/
theorem exists_nonBlocking_waiter : ∃ (tr : List (System × Action)) (s : System),
    Run (step goldenHash32) (initial fun _ => false) tr s ∧ (s.mailboxes 0).waiting = 1 ∧
      ¬ NonBlockingNeverWaits tr s := by
  obtain ⟨tr,s,hrun,htest⟩ := exists_run_of_execute (step goldenHash32) (initial fun _ => false)
    ([.newProcess 1001 1000,.clone 1001 1002,.enter 1001 (.sendMessage 1001 0 false)] ++
      runs 1001 6 ++
      (List.replicate 31 ([.enter 1001 (.sendMessage 1001 0 false)] ++ runs 1001 7)).flatten ++
      [.enter 1001 (.recieveMessage ⟨0,0,4⟩ false)] ++ runs 1001 6 ++
      [.enter 1002 (.sendMessage 1001 0 false)] ++ runs 1002 7 ++ runs 1001 1)
    (fun tr s => decide ((s.mailboxes 0).waiting = 1) &&
      (callOf 1001 tr).any (fun call => call.2.nonBlocking) && (s.pc 1001).asleep)
    (by decide +kernel)
  rw [Bool.and_eq_true,Bool.and_eq_true] at htest
  obtain ⟨⟨hwaiting,hcall⟩,hasleep⟩ := htest
  obtain ⟨⟨i,c⟩,hcall,hblock⟩ := (Option.any_eq_true _ _).mp hcall
  refine ⟨tr,s,hrun,of_decide_eq_true hwaiting,fun hnever => ?_⟩
  have hawake : (s.pc 1001).asleep = false := by
    apply hnever.asleep tr.length s (by simp) 1001 i c _ hblock
    rw [List.take_length]
    exact hcall
  rw [hawake] at hasleep
  cases hasleep

end System
end ProcessMessagePassing
