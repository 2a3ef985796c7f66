import ProcessMessagePassing.Kernel.Projection

/-! A step of the system as one task sees it, and as the message cache sees it. What is proved
about the calls of the tasks goes by cases on these two views. -/
namespace ProcessMessagePassing
open Concurrency HashTable

/-- The task is on its way out, and in no function of a mailbox. -/
def Pc.exits : Pc → Bool
  | .exitHook => true
  | .removeLookup _ => true
  | .startDeletion _ _ => true
  | .realExit _ => true
  | .decrementLive => true
  | .die => true
  | .zombie => true
  | _ => false

namespace System
variable {hash32 : Pid → ℕ} {sig : Actor → Bool} {s s' : System} {act : Action}
  {tr : List (System × Action)}

/-- The step of the system, seen from the task `p`. -/
inductive TaskStep (hash32 : Pid → ℕ) (s : System) (act : Action) (s' : System) (p : Pid) : Prop
  | rests (moves : act.moves ≠ some p) (pc : s'.pc p = s.pc p)
      (written : s'.written p = s.written p)
  | arrives (pc : s.pc p = .absent) (next : s'.pc p = .user none)
  | leaves (pc : s.pc p = .zombie) (next : s'.pc p = .absent)
  | enters {c last} (action : act = .enter p c) (pc : s.pc p = .user last)
      (next : s'.pc p = .validate (s.key p c) c) (written : s'.written p = [])
  | ends {last c} (pc : s.pc p = .user last) (next : s'.pc p = c) (exits : c.exits = true)
      (off : c.mailbox = none)
  | valid {o pid c} (action : act = .run p o) (pc : s.pc p = .validate pid c)
      (valid : s.processes.isProcessValid pid = true) (next : s'.pc p = .lookup pid c)
      (written : s'.written p = s.written p)
  | invalid {o pid c} (action : act = .run p o) (pc : s.pc p = .validate pid c)
      (next : s'.pc p = .user (some .mailboxInvalid)) (written : s'.written p = s.written p)
  | found {o pid c m} (action : act = .run p o) (pc : s.pc p = .lookup pid c)
      (found : s.get hash32 pid = some m) (next : s'.pc p = .onMailbox m .claim (.claimed false c))
      (written : s'.written p = s.written p)
  | created {o pid c} (action : act = .run p o) (pc : s.pc p = .lookup pid c)
      (missing : s.get hash32 pid = none) (memory : o.alloc = true)
      (owner : s'.owner s.mailboxesCreated = pid)
      (next : s'.pc p = .onMailbox s.mailboxesCreated .claim (.claimed true c))
      (written : s'.written p = s.written p)
  | outOfMemory {o pid c} (action : act = .run p o) (pc : s.pc p = .lookup pid c)
      (next : s'.pc p = .user (some .mailboxError)) (written : s'.written p = s.written p)
  | stays {o m cs k pr cs'} (action : act = .run p o) (pc : s.pc p = .onMailbox m cs k)
      (locked : s.Section (.task p) m cs (s'.mailboxes m) pr) (stays : pr.callState = some cs')
      (next : s'.pc p = .onMailbox m cs' k) (written : s'.written p = s.written p)
  | returned {o m cs k r} (action : act = .run p o) (pc : s.pc p = .onMailbox m cs k)
      (locked : s.Section (.task p) m cs (s'.mailboxes m) (.returned r))
      (next : s'.pc p = k.resume m r) (written : s'.written p = s.written p)
  | refused {o m c} (action : act = .run p o) (pc : s.pc p = .checkExiting m c)
      (exiting : (s.mailboxes m).stopped &&& exitingFlag ≠ 0)
      (next : s'.pc p = .onMailbox m .unclaim .refused) (written : s'.written p = s.written p)
  | granted {o m c} (action : act = .run p o) (pc : s.pc p = .checkExiting m c)
      (alive : (s.mailboxes m).stopped &&& exitingFlag = 0) (next : s'.pc p = c.begin m)
      (written : s'.written p = s.written p)
  | messageCreated {o m len block x} (action : act = .run p o)
      (pc : s.pc p = .createMessage m len block)
      (made : s.messages.create (s.processes.tgid p) len o = (s'.messages,.ok x))
      (next : s'.pc p = .onMailbox m (.addMessage (.object x) block false) .added)
      (written : s'.written p = s.written p)
  | messageFailed {o m len block code} (action : act = .run p o)
      (pc : s.pc p = .createMessage m len block)
      (failed : s.messages.create (s.processes.tgid p) len o = (s'.messages,.error code))
      (next : s'.pc p = .unclaim m code) (written : s'.written p = s.written p)
  | countFault {o m stop count} (action : act = .run p o) (pc : s.pc p = .copyCount m stop count)
      (fault : count < sizeofInt) (next : s'.pc p = .unclaim m .msgArgError)
      (written : s'.written p = s.written p)
  | countCopied {o m stop count} (action : act = .run p o) (pc : s.pc p = .copyCount m stop count)
      (writable : sizeofInt ≤ count)
      (next : s'.pc p = if stop then .onMailbox m (.stop stoppedFlag) .stopped else .unclaim m .ok)
      (written : s'.written p = s.written p ++ [.count (s.mailboxes m).messageCount])
  | copied {o m x ptrs} (action : act = .run p o) (pc : s.pc p = .copyToUser m x ptrs)
      (writable : ptrs.writable (s.messages.read o x) = true)
      (next : s'.pc p = .onMailbox m .unclaim (.delivered x))
      (written : s'.written p = s.written p ++ copyMessage ptrs (s.messages.read o x))
  | copyFault {o m x ptrs} (action : act = .run p o) (pc : s.pc p = .copyToUser m x ptrs)
      (fault : ptrs.writable (s.messages.read o x) = false)
      (next : s'.pc p = .onMailbox m (.addMessage x true true) .putBack)
      (written : s'.written p = s.written p ++ copyMessage ptrs (s.messages.read o x))
  | destroyed {o x} (action : act = .run p o) (pc : s.pc p = .destroyMessage x)
      (messages : s'.messages = s.messages.destroy x) (next : s'.pc p = .user (some .ok))
      (written : s'.written p = s.written p)
  | removalFound {o group m} (action : act = .run p o) (pc : s.pc p = .removeLookup group)
      (found : s.get hash32 (s.processes.tgid p) = some m)
      (next : s'.pc p = .onMailbox m (.stop (exitingFlag ||| stoppedFlag)) (.hook group))
  | exiting {c c'} (pc : s.pc p = c) (next : s'.pc p = c') (old : c.exits = true)
      (new : c'.exits = true) (off : c'.mailbox = none)

/-- A section of the task, with the mailbox as it is in the state after it. -/
lemma section_after {a : Actor} {m : ℕ} {cs : CallState MessagePtr}
    {m' : Mailbox Actor MessagePtr} {pr : Progress MessagePtr} (locked : s.Section a m cs m' pr)
    (mailboxes : s'.mailboxes = (s.setMailbox m m').mailboxes) :
    s.Section a m cs (s'.mailboxes m) pr := by
  rw [mailboxes,setMailbox_self]
  exact locked

lemma written_setWritten (s : System) (p : Pid) (writes : List UserWrite) :
    (s.setWritten p writes).written p = writes := Function.update_self _ _ _

theorem Stepped.taskStep (h : Stepped hash32 s act s') (p : Pid) :
    TaskStep hash32 s act s' p := by
  by_cases moves : act.moves = some p
  · cases h with
    | newProcess absent => cases moves; exact .arrives absent (setPc_self _ _ _)
    | clone caller alive absent => cases moves; exact .arrives absent (setPc_self _ _ _)
    | reap zombie => cases moves; exact .leaves zombie (setPc_self _ _ _)
    | enter user =>
      cases moves
      exact .enters rfl user (setPc_self _ _ _) (written_setWritten _ _ _)
    | exit user | exitGroup user | killed user =>
      cases moves
      exact .ends user (setPc_self _ _ _) rfl rfl
    | valid pc valid => cases moves; exact .valid rfl pc valid (setPc_self _ _ _) rfl
    | invalid pc => cases moves; exact .invalid rfl pc (setPc_self _ _ _) rfl
    | found pc unlocked found => cases moves; exact .found rfl pc found (setPc_self _ _ _) rfl
    | created pc unlocked missing memory =>
      cases moves
      exact .created rfl pc missing memory (owner_create_self _ _) (setPc_self _ _ _) rfl
    | outOfMemory pc => cases moves; exact .outOfMemory rfl pc (setPc_self _ _ _) rfl
    | stays pc locked stays =>
      cases moves
      exact .stays rfl pc (section_after locked rfl) stays (setPc_self _ _ _) rfl
    | returned pc locked =>
      cases moves
      exact .returned rfl pc (section_after locked rfl) (setPc_self _ _ _) rfl
    | refused pc exiting => cases moves; exact .refused rfl pc exiting (setPc_self _ _ _) rfl
    | granted pc alive => cases moves; exact .granted rfl pc alive (setPc_self _ _ _) rfl
    | messageCreated pc made =>
      cases moves
      exact .messageCreated rfl pc made (setPc_self _ _ _) rfl
    | messageFailed pc failed =>
      cases moves
      exact .messageFailed rfl pc failed (setPc_self _ _ _) rfl
    | countFault pc fault => cases moves; exact .countFault rfl pc fault (setPc_self _ _ _) rfl
    | countCopied pc writable =>
      cases moves
      exact .countCopied rfl pc writable (setPc_self _ _ _) (written_setWritten _ _ _)
    | copied pc writable =>
      cases moves
      exact .copied rfl pc writable (setPc_self _ _ _) (written_setWritten _ _ _)
    | copyFault pc fault =>
      cases moves
      exact .copyFault rfl pc fault (setPc_self _ _ _) (written_setWritten _ _ _)
    | destroyed pc => cases moves; exact .destroyed rfl pc rfl (setPc_self _ _ _) rfl
    | removalFound pc unlocked found =>
      cases moves
      exact .removalFound rfl pc found (setPc_self _ _ _)
    | lastThread pc | otherThread pc | removalMissing pc | deletionStarted pc | deletionFailed pc
    | realExit pc | decrementLive pc | die pc =>
      cases moves
      exact .exiting pc (setPc_self _ _ _) rfl rfl rfl
    | fatalSignal | signal | handle | ownerRead | stillValid | exited | unlinked | destroyStays
    | flushed | deleted => cases moves
  · refine .rests moves (h.pc_of_ne moves) ?_
    cases h with
    | enter | countCopied | copied | copyFault =>
      exact Function.update_of_ne (fun he => moves (congrArg some he.symm)) _ _
    | _ => rfl

/-- A function that a task comes back from to copy a message was its receive. -/
lemma resume_eq_copyToUser {m n : ℕ} {x : MessagePtr} {ptrs : RecievePtrs} {r : Ret MessagePtr}
    {k : Cont} (h : k.resume n r = .copyToUser m x ptrs) :
    n = m ∧ k = .removed ptrs ∧ ∃ e, r = .message e ∧ x = .ofEntry m e := by
  cases k with
  | claimed fresh c =>
    cases fresh with
    | true => exact absurd h (begin_ne c rfl)
    | false => cases h
  | removed ptrs' =>
    cases r with
    | code c => cases h
    | message e =>
      cases h
      exact ⟨rfl,rfl,e,rfl,rfl⟩
  | added | refused | putBack | stopped | unclaimed | delivered | hook => cases h

/-- Whoever copies a message of the mailbox has been copying it, or has just taken it. -/
theorem Stepped.copying (h : Stepped hash32 s act s') {p : Pid} {m : ℕ} {x : MessagePtr}
    {ptrs : RecievePtrs} (hpc : s'.pc p = .copyToUser m x ptrs) :
    s.pc p = .copyToUser m x ptrs ∨
      ∃ e o cs, x = .ofEntry m e ∧ act = .run p o ∧ s.pc p = .onMailbox m cs (.removed ptrs) ∧
        s.Section (.task p) m cs (s'.mailboxes m) (.returned (.message e)) := by
  cases h.taskStep p with
  | rests moves pc => exact .inl (pc ▸ hpc)
  | arrives pc next | leaves pc next | enters action pc next | valid action pc valid next
  | invalid action pc next | found action pc found next
  | created action pc missing memory owner next | outOfMemory action pc next
  | stays action pc locked stays next | refused action pc exiting next
  | messageCreated action pc made next | messageFailed action pc failed next
  | countFault action pc fault next | copied action pc writable next
  | copyFault action pc fault next | destroyed action pc messages next
  | removalFound action pc found next =>
    rw [next] at hpc
    cases hpc
  | ends pc next exits off | exiting pc next old new off =>
    rw [next] at hpc
    rw [hpc] at off
    cases off
  | granted action pc alive next =>
    rw [next] at hpc
    exact absurd hpc (begin_ne _ rfl)
  | countCopied action pc writable next =>
    rw [next] at hpc
    split at hpc <;> cases hpc
  | @returned o n cs k r action pc locked next =>
    rw [next] at hpc
    obtain ⟨rfl,rfl,e,rfl,rfl⟩ := resume_eq_copyToUser hpc
    exact .inr ⟨e,o,cs,rfl,action,pc,locked⟩

/-- A task comes to put a message back where it could not copy the message, and stays there. -/
theorem Stepped.puttingBack (h : Stepped hash32 s act s') (hc : Consistent hash32 s) {p : Pid}
    {m : ℕ} {x : MessagePtr} {cs : CallState MessagePtr} {head : Bool} (hpc : s'.pc p = .onMailbox m cs .putBack)
    (adding : cs.adding = some (x,head)) :
    (∃ cs' head', s.pc p = .onMailbox m cs' .putBack ∧ cs'.adding = some (x,head')) ∨
      ∃ ptrs, s.pc p = .copyToUser m x ptrs := by
  cases h.taskStep p with
  | rests moves pc => exact .inl ⟨cs,head,pc ▸ hpc,adding⟩
  | arrives pc next | leaves pc next | enters action pc next | valid action pc valid next
  | invalid action pc next | found action pc found next
  | created action pc missing memory owner next | outOfMemory action pc next
  | refused action pc exiting next | messageCreated action pc made next
  | messageFailed action pc failed next | countFault action pc fault next
  | copied action pc writable next | destroyed action pc messages next
  | removalFound action pc found next =>
    rw [next] at hpc
    cases hpc
  | ends pc next exits off | exiting pc next old new off =>
    rw [next] at hpc
    rw [hpc] at off
    cases off
  | granted action pc alive next =>
    rw [next] at hpc
    exact absurd hpc (begin_ne _ rfl)
  | countCopied action pc writable next =>
    rw [next] at hpc
    split at hpc <;> cases hpc
  | returned action pc locked next =>
    rw [next] at hpc
    exact absurd hpc (resume_ne _ _ rfl)
  | @stays o n cs' k pr cs'' action pc locked stays next =>
    rw [next] at hpc
    cases hpc
    have hfits := hc.fits p
    rw [pc] at hfits
    obtain ⟨y,hy⟩ := hfits
    rw [locked.2.stays_adding hy stays] at adding
    cases adding
    exact .inl ⟨cs',true,pc,hy⟩
  | copyFault action pc fault next =>
    rw [next] at hpc
    cases hpc
    cases adding
    exact .inr ⟨_,pc⟩

/-- A task that adds a message is in a send, or in a receive that puts it back. -/
lemma adding_cases (hc : Consistent hash32 s) {a : Actor} {n : ℕ} {cs : CallState MessagePtr}
    {x : MessagePtr} {head : Bool} (called : s.call a = some (n,cs)) (adding : cs.adding = some (x,head)) :
    ∃ p, a = .task p ∧ ((head = false ∧ s.pc p = .onMailbox n cs .added) ∨
      head = true ∧ s.pc p = .onMailbox n cs .putBack) := by
  cases a with
  | task p =>
    obtain ⟨k,hpc⟩ := Pc.call_eq called
    have hfits := hc.fits p
    rw [hpc] at hfits
    refine ⟨p,rfl,?_⟩
    cases k with
    | added =>
      obtain ⟨y,hy⟩ := hfits
      rw [adding] at hy
      cases hy
      exact .inl ⟨rfl,hpc⟩
    | putBack =>
      obtain ⟨y,hy⟩ := hfits
      rw [adding] at hy
      cases hy
      exact .inr ⟨rfl,hpc⟩
    | removed ptrs => rcases hfits with ⟨block,rfl⟩ | rfl <;> cases adding
    | claimed | refused | unclaimed | delivered | stopped | hook => cases hfits; cases adding
  | kthread k =>
    obtain ⟨d,hd,hcall⟩ := Option.bind_eq_some_iff.mp called
    obtain rfl := d.call_eq hcall
    have hdestroys : cs.Destroys := hc.destroys k _ hd
    cases cs with
    | addMessage | addWaiting => exact False.elim hdestroys
    | _ => cases adding

/-- What a step does to the message cache. -/
inductive CacheStep (s : System) (act : Action) (s' : System) : Prop
  | same (messages : s'.messages = s.messages)
  | created {p o m len block r} (action : act = .run p o) (pc : s.pc p = .createMessage m len block)
      (made : s.messages.create (s.processes.tgid p) len o = (s'.messages,r))
  | destroyed {p o x} (action : act = .run p o) (pc : s.pc p = .destroyMessage x)
      (messages : s'.messages = s.messages.destroy x)
  | flushed {k o m xs} (action : act = .runDeletion k o)
      (outcome : s.outcome act = some (m,.flushed xs))
      (messages : s'.messages = xs.foldl MessageCache.destroy s.messages)

theorem Stepped.cacheStep (h : Stepped hash32 s act s') : CacheStep s act s' := by
  cases h with
  | messageCreated pc made => exact .created rfl pc made
  | messageFailed pc failed => exact .created rfl pc failed
  | destroyed pc => exact .destroyed rfl pc rfl
  | flushed deletion locked =>
    exact .flushed rfl (outcome_eq (running_eq rfl (call_kthread deletion)) locked) rfl
  | _ => exact .same rfl

end System
end ProcessMessagePassing
