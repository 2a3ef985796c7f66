import ProcessMessagePassing.Kernel.Calls
import ProcessMessagePassing.Kernel.Queue

/-! Where the messages are. A step of the system, seen from the messages, moves one of them between
a list and a call, makes or frees one, or leaves them all where they are. -/
namespace ProcessMessagePassing
open Concurrency HashTable

namespace Mailbox
variable {a : Actor} {sig : Bool} {m m' : Mailbox Actor MessagePtr} {cs : CallState MessagePtr}
  {pr : Progress MessagePtr}

/-- An add that takes the lock now is refused: the mailbox is stopped, or it is full and the caller
does not wait or has a signal pending. -/
def refusesAdd (m : Mailbox Actor MessagePtr) (sig : Bool) : CallState MessagePtr → Bool
  | .addMessage _ block _ => decide (m.stopped ≠ 0) || m.full && (sig || !block)
  | .addWaiting _ _ => decide (m.stopped ≠ 0) || m.full && sig
  | _ => false

/-- What a section does to the list of its mailbox, and how it ends then. -/
inductive ListStep (m : Mailbox Actor MessagePtr) (sig : Bool) (cs : CallState MessagePtr)
    (m' : Mailbox Actor MessagePtr) (pr : Progress MessagePtr) : Prop
  | same (messages : m'.messages = m.messages) (taken : ∀ e, pr ≠ .returned (.message e))
      (flushed : ∀ xs, pr ≠ .flushed xs) (adding : cs.adding = none ∨ pr.callState ≠ none)
      (accepts : m.refusesAdd sig cs = false)
  | added {x head} (adding : cs.adding = some (x,head)) (ended : pr = .returned (.code .ok))
      (messages : m'.messages = if head then x :: m.messages else m.messages ++ [x])
      (accepts : m.refusesAdd sig cs = false)
  | refused {x head c} (adding : cs.adding = some (x,head)) (ended : pr = .returned (.code c))
      (code : c ≠ .ok) (messages : m'.messages = m.messages) (refuses : m.refusesAdd sig cs = true)
  | taken (ended : pr = .returned (.message (listEntry m.messages)))
      (messages : m'.messages = m.messages.tail) (accepts : m.refusesAdd sig cs = false)
  | flushed (ended : pr = .flushed m.messages) (messages : m'.messages = [])
      (accepts : m.refusesAdd sig cs = false)

theorem Locked.listStep (h : Locked a sig m cs m' pr) : ListStep m sig cs m' pr := by
  cases h with
  | addStopped stopped | addWokenStopped stopped =>
    exact .refused rfl rfl nofun rfl (by simp [refusesAdd,stopped])
  | addFull running full =>
    exact .refused rfl rfl nofun rfl (by simp [refusesAdd,(full_iff m).mpr full])
  | addSignalled running full signalled | addInterrupted running full signalled =>
    exact .refused rfl rfl nofun rfl (by simp [refusesAdd,(full_iff m).mpr full,signalled])
  | addNow running room | addWoken running room =>
    exact .added rfl rfl rfl (by simp [refusesAdd,running,(not_full_iff m).mpr room])
  | addSleep running full quiet | addAgain running full quiet =>
    exact .same rfl nofun nofun (.inr nofun) (by simp [refusesAdd,running,quiet])
  | removeNow | removeWoken => exact .taken rfl rfl rfl
  | flushNow flushing => exact .flushed rfl rfl (by rcases flushing with rfl | rfl <;> rfl)
  | flushSleep flushing =>
    exact .same rfl nofun nofun (.inr nofun) (by rcases flushing with rfl | rfl <;> rfl)
  | unclaimedSleep awaiting | unclaimedNow awaiting =>
    exact .same rfl nofun nofun (.inr nofun) (by rcases awaiting with rfl | rfl <;> rfl)
  | unclaimNow => exact .same (unclaim_messages m) nofun nofun (.inl rfl) rfl
  | _ => exact .same rfl nofun nofun (.inl rfl) rfl

/-- A message is accepted by a mailbox that runs. -/
lemma Locked.running_of_added {x : MessagePtr} {head : Bool}
    (h : Locked a sig m cs m' (.returned (.code .ok))) (adding : cs.adding = some (x,head)) :
    m.stopped = 0 := by
  cases h with
  | addNow running | addWoken running => exact running
  | _ => cases adding

end Mailbox

/-- The message that a task has in its hands. -/
def Pc.holding : Pc → Option MessagePtr
  | .onMailbox _ _ (.delivered x) => some x
  | .onMailbox _ cs _ => cs.adding.map Prod.fst
  | .copyToUser _ x _ => some x
  | .destroyMessage x => some x
  | _ => none

lemma holding_begin (m : ℕ) (c : Syscall) : (c.begin m).holding = none := by cases c <;> rfl

/-- A call that comes back with a code has what it still had to deliver. -/
lemma holding_resume_code (m : ℕ) (c : Code) (k : Cont) (h : ∀ x, k ≠ .delivered x) :
    (k.resume m (.code c)).holding = none := by
  cases k with
  | claimed fresh c =>
    cases fresh with
    | true => exact holding_begin m c
    | false => rfl
  | delivered x => exact absurd rfl (h x)
  | added | refused | removed | putBack | stopped | unclaimed | hook => rfl

lemma holding_onMailbox {m : ℕ} {cs : CallState MessagePtr} {k : Cont}
    (h : ∀ x, k ≠ .delivered x) : (Pc.onMailbox m cs k).holding = cs.adding.map Prod.fst := by
  cases k with
  | delivered x => exact absurd rfl (h x)
  | _ => rfl

lemma removes_adding {cs : CallState MessagePtr} (h : cs.Removes) : cs.adding = none := by
  rcases h with ⟨block,rfl⟩ | rfl <;> rfl

/-- Only a receive comes back with a message. -/
lemma Mailbox.Locked.removes {a : Actor} {sig : Bool} {m m' : Mailbox Actor MessagePtr}
    {cs : CallState MessagePtr} {e : ListEntry MessagePtr}
    (h : Mailbox.Locked a sig m cs m' (.returned (.message e))) : cs.Removes := by
  cases h with
  | removeNow => exact .inl ⟨_,rfl⟩
  | removeWoken => exact .inr rfl

/-- A task that comes back with a message was in a receive. -/
lemma Cont.Fits.removed {cs : CallState MessagePtr} {k : Cont} (fits : k.Fits cs)
    (removes : cs.Removes) : ∃ ptrs, k = .removed ptrs := by
  cases k with
  | removed ptrs => exact ⟨ptrs,rfl⟩
  | added | putBack =>
    obtain ⟨x,hx⟩ := fits
    rw [removes_adding removes] at hx
    cases hx
  | claimed | refused | unclaimed | delivered | stopped | hook =>
    rcases removes with ⟨block,rfl⟩ | rfl <;> cases fits

/-- A task that comes back from an add was not on its way out with a message. -/
lemma Cont.Fits.not_delivered {cs : CallState MessagePtr} {k : Cont} (fits : k.Fits cs)
    {y : MessagePtr × Bool} (adding : cs.adding = some y) (x : MessagePtr) : k ≠ .delivered x := by
  rintro rfl
  cases fits
  cases adding

namespace System
variable {hash32 : Pid → ℕ} {sig : Actor → Bool} {s s' : System} {act : Action}
  {tr : List (System × Action)}

def lists (s : System) (m : ℕ) : List MessagePtr := (s.mailboxes m).messages

def holding (s : System) (p : Pid) : Option MessagePtr := (s.pc p).holding

/-- The message with which an add is refused in this step. -/
def refuses (s : System) (act : Action) : Option MessagePtr :=
  (s.running act).bind fun (a,m,cs) =>
    if (s.mailboxes m).refusesAdd (s.signalPending a) cs then cs.adding.map Prod.fst else none

/-- The step of the system, seen from the messages. -/
inductive MessageStep (s : System) (act : Action) (s' : System) : Prop
  | same (cache : s'.messages = s.messages) (lists : s'.lists = s.lists)
      (holding : s'.holding = s.holding) (accepts : s.refuses act = none)
  | created {p o m len block x} (action : act = .run p o) (pc : s.pc p = .createMessage m len block)
      (made : s.messages.create (s.processes.tgid p) len o = (s'.messages,.ok x))
      (lists : s'.lists = s.lists)
      (holding : s'.holding = Function.update s.holding p (some (.object x)))
      (accepts : s.refuses act = none)
  | failed {p o m len block code} (action : act = .run p o)
      (pc : s.pc p = .createMessage m len block)
      (made : s.messages.create (s.processes.tgid p) len o = (s'.messages,.error code))
      (lists : s'.lists = s.lists) (holding : s'.holding = s.holding)
      (accepts : s.refuses act = none)
  | added {p o m x head cs k} (action : act = .run p o) (pc : s.pc p = .onMailbox m cs k)
      (adding : cs.adding = some (x,head)) (adds : s.adds m head act = some x)
      (holds : s.holding p = some x) (cache : s'.messages = s.messages)
      (lists : s'.lists = Function.update s.lists m
        (if head then x :: s.lists m else s.lists m ++ [x]))
      (holding : s'.holding = Function.update s.holding p none) (accepts : s.refuses act = none)
  | refused {p o x} (action : act = .run p o) (refuses : s.refuses act = some x)
      (holds : s.holding p = some x) (cache : s'.messages = s.messages)
      (lists : s'.lists = s.lists) (holding : s'.holding = Function.update s.holding p none)
  | taken {p o m cs ptrs} (action : act = .run p o)
      (pc : s.pc p = .onMailbox m cs (.removed ptrs))
      (count : (s.mailboxes m).messageCount ≠ 0) (cache : s'.messages = s.messages)
      (lists : s'.lists = Function.update s.lists m (s.lists m).tail)
      (free : s.holding p = none)
      (holding : s'.holding = Function.update s.holding p
        (some (.ofEntry m (listEntry (s.lists m))))) (accepts : s.refuses act = none)
  | destroyed {p o x} (action : act = .run p o) (pc : s.pc p = .destroyMessage x)
      (cache : s'.messages = s.messages.destroy x) (lists : s'.lists = s.lists)
      (holding : s'.holding = Function.update s.holding p none) (accepts : s.refuses act = none)
  | flushed {m} (outcome : s.outcome act = some (m,.flushed (s.lists m)))
      (cache : s'.messages = (s.lists m).foldl MessageCache.destroy s.messages)
      (lists : s'.lists = Function.update s.lists m []) (holding : s'.holding = s.holding)
      (accepts : s.refuses act = none)

variable {p : Pid} {m : ℕ} {x : MessagePtr}

lemma holding_setPc (s : System) (p : Pid) (c : Pc) :
    (s.setPc p c).holding = Function.update s.holding p c.holding := by
  funext q
  exact Function.apply_update (fun _ => Pc.holding) s.pc p c q

lemma lists_setMailbox (s : System) (m : ℕ) (m' : Mailbox Actor MessagePtr) :
    (s.setMailbox m m').lists = Function.update s.lists m m'.messages := by
  funext n
  exact Function.apply_update (fun _ => Mailbox.messages) s.mailboxes m m' n

lemma lists_section {m' : Mailbox Actor MessagePtr} (h : m'.messages = (s.mailboxes m).messages) :
    (s.setMailbox m m').lists = s.lists := by
  rw [lists_setMailbox,h]
  exact Function.update_eq_self m s.lists

/-- A task goes on with what it had in its hands. -/
lemma holding_kept {c d : Pc} (pc : s.pc p = c) (same : d.holding = c.holding) :
    Function.update s.holding p d.holding = s.holding := by
  rw [same,← pc]
  exact Function.update_eq_self p s.holding

lemma refuses_of_idle {a : Actor} (actor : act.actor = some a) (idle : s.call a = none) :
    s.refuses act = none := by
  simp [refuses,running,actor,idle]

lemma refuses_eq {a : Actor} {cs : CallState MessagePtr} (running : s.running act = some (a,m,cs)) :
    s.refuses act = if (s.mailboxes m).refusesAdd (s.signalPending a) cs then
      cs.adding.map Prod.fst else none := by
  simp [refuses,running]

/-- The task does nothing with messages. -/
lemma messageStep_quiet {o : Oracle} {c d : Pc} (action : act = .run p o) (pc : s.pc p = c)
    (idle : c.call = none) (same : d.holding = c.holding) (cache : s'.messages = s.messages)
    (lists : s'.lists = s.lists) (holding : s'.holding = Function.update s.holding p d.holding) :
    MessageStep s act s' := by
  subst act
  refine .same cache lists ?_ (refuses_of_idle rfl ?_)
  · rw [holding]
    exact holding_kept pc same
  · rw [call_task pc,idle]

/-- A task takes a section of a mailbox. -/
lemma messageStep_section {o : Oracle} {cs : CallState MessagePtr} {k : Cont}
    {m' : Mailbox Actor MessagePtr} {pr : Progress MessagePtr} {d : Pc}
    (hc : Consistent hash32 s) (action : act = .run p o) (pc : s.pc p = .onMailbox m cs k)
    (locked : s.Section (.task p) m cs m' pr) (cache : s'.messages = s.messages)
    (lists : s'.lists = (s.setMailbox m m').lists)
    (holding : s'.holding = Function.update s.holding p d.holding)
    (next : (∃ cs', pr.callState = some cs' ∧ d = .onMailbox m cs' k) ∨
      ∃ r, pr = .returned r ∧ d = k.resume m r) : MessageStep s act s' := by
  subst act
  have hrunning : s.running (.run p o) = some (.task p,m,cs) := running_eq rfl (call_task pc)
  have hrefuses := refuses_eq hrunning
  have hfits := hc.fits p
  rw [pc] at hfits
  have hheld : s.holding p = (Pc.onMailbox m cs k).holding := congrArg Pc.holding pc
  cases locked.2.listStep with
  | same messages taken flushed adding accepts =>
    rw [accepts] at hrefuses
    refine .same cache (lists.trans (lists_section messages)) ?_ hrefuses
    rw [holding]
    apply holding_kept pc
    rcases next with ⟨cs',hstays,rfl⟩ | ⟨r,rfl,rfl⟩
    · -- it stays inside, with the message that it adds
      cases k with
      | delivered x => rfl
      | added | putBack =>
        obtain ⟨y,hy⟩ := hfits
        simp only [Pc.holding,locked.2.stays_adding hy hstays,hy]
      | removed ptrs =>
        simp only [Pc.holding,removes_adding hfits,
          removes_adding (locked.2.stays_removes hfits hstays)]
      | claimed | refused | unclaimed | stopped | hook =>
        have honce := locked.2.once (by cases hfits; simp)
        rw [honce] at hstays
        cases hstays
    · cases r with
      | message e => exact absurd rfl (taken e)
      | code c =>
        have hadding : cs.adding = none := adding.resolve_right fun h => h rfl
        by_cases hk : ∃ y, k = .delivered y
        · obtain ⟨y,rfl⟩ := hk
          rfl
        · have hnot : ∀ y, k ≠ .delivered y := fun y hy => hk ⟨y,hy⟩
          rw [holding_resume_code m c k hnot,holding_onMailbox hnot,hadding]
          rfl
  | @added x head adding ended messages accepts =>
    rw [accepts] at hrefuses
    have hnot := fun y => hfits.not_delivered adding y
    rw [holding_onMailbox hnot,adding] at hheld
    subst ended
    refine .added rfl pc adding ((adds_eq_some hrunning locked).mpr ⟨rfl,rfl,adding⟩) hheld cache
      ?_ ?_ hrefuses
    · rw [lists,lists_setMailbox,messages]
      rfl
    · rcases next with ⟨cs',hstays,-⟩ | ⟨r,hr,rfl⟩
      · cases hstays
      · cases hr
        rw [holding,holding_resume_code m _ k hnot]
  | @refused x head c adding ended code messages refuses =>
    rw [refuses,adding] at hrefuses
    have hnot := fun y => hfits.not_delivered adding y
    rw [holding_onMailbox hnot,adding] at hheld
    subst ended
    refine .refused rfl hrefuses hheld cache (lists.trans (lists_section messages)) ?_
    rcases next with ⟨cs',hstays,-⟩ | ⟨r,hr,rfl⟩
    · cases hstays
    · cases hr
      rw [holding,holding_resume_code m _ k hnot]
  | taken ended messages accepts =>
    rw [accepts] at hrefuses
    subst ended
    obtain ⟨-,hcount,-⟩ := locked.2.takes
    obtain ⟨ptrs,rfl⟩ := hfits.removed locked.2.removes
    have hnot : ∀ y, Cont.removed ptrs ≠ .delivered y := fun _ => nofun
    rw [holding_onMailbox hnot,removes_adding locked.2.removes] at hheld
    refine .taken rfl pc hcount cache ?_ hheld ?_ hrefuses
    · rw [lists,lists_setMailbox,messages]
      rfl
    · rcases next with ⟨cs',hstays,-⟩ | ⟨r,hr,rfl⟩
      · cases hstays
      · cases hr
        exact holding
  | flushed ended messages accepts =>
    subst ended
    obtain ⟨hcs,-,-⟩ := locked.2.flushed_when
    exfalso
    cases k with
    | added | putBack =>
      obtain ⟨y,hy⟩ := hfits
      rcases hcs with rfl | rfl <;> cases hy
    | removed ptrs =>
      rcases hcs with rfl | rfl <;> rcases hfits with ⟨block,h⟩ | h <;> cases h
    | claimed | refused | unclaimed | delivered | stopped | hook =>
      rcases hcs with rfl | rfl <;> cases hfits

/-- A deletion thread takes a section of its mailbox, and does not flush it. -/
lemma messageStep_destroys {k : ℕ} {o : Oracle} {cs : CallState MessagePtr}
    {m' : Mailbox Actor MessagePtr} {pr : Progress MessagePtr} (destroys : cs.Destroys)
    (action : act = .runDeletion k o) (deletion : s.deletions k = some ⟨m,.destroying cs⟩)
    (locked : s.Section (.kthread k) m cs m' pr) (unflushed : ∀ xs, pr ≠ .flushed xs)
    (cache : s'.messages = s.messages) (lists : s'.lists = (s.setMailbox m m').lists)
    (holding : s'.holding = s.holding) : MessageStep s act s' := by
  subst act
  have hrunning : s.running (.runDeletion k o) = some (.kthread k,m,cs) :=
    running_eq rfl (call_kthread deletion)
  have hrefuses := refuses_eq hrunning
  have hadding : cs.adding = none := by
    cases cs with
    | addMessage | addWaiting => exact False.elim destroys
    | _ => rfl
  cases locked.2.listStep with
  | same messages taken flushed adding accepts =>
    rw [accepts] at hrefuses
    exact .same cache (lists.trans (lists_section messages)) holding hrefuses
  | added adding | refused adding =>
    rw [hadding] at adding
    cases adding
  | taken ended =>
    subst ended
    rcases locked.2.removes with ⟨block,rfl⟩ | rfl <;> exact False.elim destroys
  | flushed ended => exact absurd ended (unflushed _)

theorem Stepped.messageStep (h : Stepped hash32 s act s') (hc : Consistent hash32 s)
    (hu : Uncreated s) : MessageStep s act s' := by
  cases h with
  | newProcess absent | clone caller alive absent | reap absent | enter absent | exit absent
  | exitGroup absent | killed absent =>
    refine .same rfl rfl ?_ rfl
    rw [holding_setPc]
    exact holding_kept absent rfl
  | fatalSignal | signal | handle => exact .same rfl rfl rfl rfl
  | valid pc | invalid pc | found pc | outOfMemory pc | refused pc | countFault pc | copied pc
  | copyFault pc | lastThread pc | otherThread pc | removalFound pc | removalMissing pc
  | deletionStarted pc | deletionFailed pc | realExit pc | decrementLive pc | die pc =>
    exact messageStep_quiet rfl pc rfl rfl rfl rfl (holding_setPc _ _ _)
  | granted pc =>
    exact messageStep_quiet rfl pc rfl (holding_begin _ _) rfl rfl (holding_setPc _ _ _)
  | countCopied pc =>
    refine messageStep_quiet rfl pc rfl ?_ rfl rfl (holding_setPc _ _ _)
    split <;> rfl
  | @created p o pid c pc =>
    refine messageStep_quiet rfl pc rfl ?_ rfl ?_ (holding_setPc _ _ _)
    · rfl
    · apply lists_section
      rw [hu _ le_rfl]
      rfl
  | stays pc locked stays =>
    exact messageStep_section hc rfl pc locked rfl rfl (holding_setPc _ _ _) (.inl ⟨_,stays,rfl⟩)
  | returned pc locked =>
    exact messageStep_section hc rfl pc locked rfl rfl (holding_setPc _ _ _) (.inr ⟨_,rfl,rfl⟩)
  | messageCreated pc made =>
    exact .created rfl pc made rfl (holding_setPc _ _ _) (refuses_of_idle rfl (call_task pc))
  | messageFailed pc failed =>
    refine .failed rfl pc failed rfl ?_ (refuses_of_idle rfl (call_task pc))
    rw [holding_setPc]
    exact holding_kept pc rfl
  | destroyed pc =>
    exact .destroyed rfl pc rfl rfl (holding_setPc _ _ _) (refuses_of_idle rfl (call_task pc))
  | ownerRead deletion | stillValid deletion | exited deletion | unlinked deletion =>
    exact .same rfl rfl rfl (refuses_of_idle rfl (call_kthread deletion))
  | destroyStays deletion locked | deleted deletion locked =>
    exact messageStep_destroys (hc.destroys _ _ deletion) rfl deletion locked nofun rfl rfl rfl
  | @flushed k m o cs m' xs deletion locked =>
    have hrunning : s.running (.runDeletion k o) = some (.kthread k,m,cs) :=
      running_eq rfl (call_kthread deletion)
    obtain ⟨hcs,-,rfl⟩ := locked.2.flushed_when
    refine .flushed (m := m) (outcome_eq hrunning locked) rfl ?_ rfl ?_
    · change (s.setMailbox m m').lists = _
      rw [lists_setMailbox,locked.2.flushed_messages]
    · rw [refuses_eq hrunning]
      rcases hcs with rfl | rfl <;> rfl

end System
end ProcessMessagePassing
