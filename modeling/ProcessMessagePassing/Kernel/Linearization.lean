import ProcessMessagePassing.Kernel.Deletion
import ProcessMessagePassing.Kernel.Service

/-! The system as the machine of `Service`. Every step is a path of that machine, of one event at
most, and the call that takes the step shows the event between its entry and its return. -/
namespace ProcessMessagePassing
open Concurrency Concurrency.BoundedDeque HashTable

/-- What the state of a mailbox has to do with an error. -/
def Code.reason : Code → Option Refusal
  | .mailboxFull => some .full
  | .mailboxEmpty => some .empty
  | .mailboxStopped => some .closed
  | _ => none

lemma Code.dequeResult_reason {code : Code} {reason : Refusal} (h : code.reason = some reason) :
    dequeResult (.code code : Ret MessagePtr) = .error reason := by
  cases code <;> cases h <;> rfl

/-- The code that a call is about to return, or has returned. -/
def Pc.answers : Pc → Option Code
  | .onMailbox _ _ (.unclaimed code) => some code
  | .user last => last
  | _ => none

lemma answers_onMailbox {m : ℕ} {cs cs' : CallState MessagePtr} {k : Cont} :
    (Pc.onMailbox m cs' k).answers = (Pc.onMailbox m cs k).answers := by cases k <;> rfl

lemma answers_begin (m : ℕ) (c : Syscall) : (c.begin m).answers = none := by cases c <;> rfl

lemma answers_of_exits {pc : Pc} (h : pc.exits = true) : pc.answers = none := by
  cases pc with
  | onMailbox m cs k =>
    cases k with
    | unclaimed code => cases h
    | _ => rfl
  | user last => cases h
  | _ => rfl

/-- What the task has done, of all these events. -/
def Service.done (p : Pid) (es : List Service.Event) : List Effect :=
  es.filterMap fun
    | .did q e => if q = p then some e else none
    | _ => none

/-- The refusal with which a section of the task ends. -/
def Progress.refusal (p : Pid) (m : ℕ) (cs : CallState MessagePtr) :
    Progress MessagePtr → Option Service.Event
  | .returned r =>
    match dequeStatus (some cs),dequeResult r with
    | .pending op,.error reason => some (.refused p m op reason)
    | _,_ => none
  | _ => none

namespace Mailbox
variable {a : Actor} {sig : Bool} {m m' : Mailbox Actor MessagePtr} {cs : CallState MessagePtr}

/-- The count of a mailbox that is not stopped is right. -/
lemma Counted.exact (h : m.Counted) (running : m.stopped = 0) : m.Exact :=
  h.counts.resolve_right fun hclosed => hclosed.1 running

lemma Counted.full (h : m.Counted) (running : m.stopped = 0) (full : m.messageMax ≤ m.messageCount) :
    m.messages.length = 32 := by
  have hexact := h.exact running
  have hbound := h.bounded.2
  have hmax := h.max
  unfold Exact at hexact
  omega

lemma Counted.empty (h : m.Counted) (empty : m.messageCount = 0) : m.messages = [] := by
  rcases h.counts with hexact | hclosed
  · unfold Exact at hexact
    exact List.length_eq_zero_iff.mp (by omega)
  · exact hclosed.2

/-- An add that is done is a push. -/
lemma Counted.commit (h : m.Counted) (running : m.stopped = 0) (room : m.messageCount < m.messageMax)
    (x : MessagePtr) (block head : Bool) : Commit 32 (.push x head block) m.box.messages m.box.closed
      (m.insertMessage x head).messages m.box.closed none := by
  have hexact := h.exact running
  have hmax := h.max
  have hroom : m.messages.length < 32 := by
    unfold Exact at hexact
    omega
  have hopen : m.box.closed = false := decide_eq_false fun hstopped => hstopped running
  rw [hopen]
  cases head with
  | false => exact .pushBack hroom
  | true => exact .pushFront hroom

lemma Counted.box_insertMessage (h : m.Counted) (running : m.stopped = 0) (x : MessagePtr)
    (head : Bool) : (m.insertMessage x head).box =
      { m.box with messages := (m.insertMessage x head).messages } := by
  have hold := h.exact running
  have hnew := hold.insertMessage x head
  have howes : ∀ {m : Mailbox Actor MessagePtr}, m.Exact → m.box.owes = 0 := by
    intro m hexact
    unfold Exact at hexact
    simp [box,hexact]
  have hbox : (m.insertMessage x head).box = ⟨m.owner,(m.insertMessage x head).messages,
      m.box.closed,(m.insertMessage x head).box.owes⟩ := rfl
  rw [hbox,howes hnew,← howes hold]
  rfl

@[simp] lemma box_unclaim (m : Mailbox Actor MessagePtr) : m.unclaim.box = m.box := by
  simp [box]

lemma brings_eq {op : Op MessagePtr} (pending : dequeStatus (some cs) = .pending op) :
    brings op = cs.adding.map Prod.fst := by
  cases cs <;> cases pending <;> rfl

lemma pending_of_adding {y : MessagePtr × Bool} (adding : cs.adding = some y) :
    ∃ op, dequeStatus (some cs) = .pending op := by
  cases cs <;> cases adding <;> exact ⟨_,rfl⟩

lemma pending_of_removes (removes : cs.Removes) : ∃ op, dequeStatus (some cs) = .pending op := by
  rcases removes with ⟨block,rfl⟩ | rfl <;> exact ⟨_,rfl⟩

lemma dequeResult_error {code : Code} (failed : code ≠ .ok) :
    ∃ reason, dequeResult (.code code : Ret MessagePtr) = .error reason := by
  cases code <;> first | exact ⟨_,rfl⟩ | exact absurd rfl failed

lemma dequeResult_message (e : ListEntry MessagePtr) :
    dequeResult (.message e) = .ok (match e with | .node x => some x | .head => none) := by
  cases e <;> rfl

lemma code_of_refused {r : Ret MessagePtr} {reason : Refusal} (result : dequeResult r = .error reason) :
    ∃ code, r = .code code ∧ code ≠ .ok := by
  cases r with
  | message e =>
    rw [dequeResult_message] at result
    cases result
  | code code =>
    refine ⟨code,rfl,?_⟩
    rintro rfl
    cases result

lemma effect_of_refused {n : ℕ} {code : Code} (failed : code ≠ .ok) :
    (Progress.returned (.code code)).effect n cs = none := by
  cases code <;> first | rfl | exact absurd rfl failed

/-- What a refusal says is true at the moment it is made. -/
lemma Counted.refused (h : m.Counted) {r : Ret MessagePtr} {op : Op MessagePtr} {reason : Refusal}
    (locked : Locked a sig m cs m' (.returned r)) (pending : dequeStatus (some cs) = .pending op)
    (result : dequeResult r = .error reason) :
    m'.box = m.box ∧ Refused 32 op m.box.messages m.box.closed sig reason := by
  have hclosed : m.stopped ≠ 0 → m.box.closed = true := fun hs => decide_eq_true hs
  have hopen : m.stopped = 0 → m.box.closed = false := fun hs => decide_eq_false fun hne => hne hs
  cases locked with
  | addStopped stopped | addWokenStopped stopped =>
    cases pending
    cases result
    refine ⟨rfl,?_⟩
    rw [hclosed stopped]
    exact .pushClosed
  | addFull running full =>
    cases pending
    cases result
    refine ⟨rfl,?_⟩
    rw [hopen running]
    exact .pushFull (h.full running full)
  | addSignalled running full signalled | addInterrupted running full signalled =>
    cases pending
    cases result
    refine ⟨rfl,?_⟩
    rw [hopen running,signalled]
    exact .pushInterrupted (h.full running full)
  | removeStopped stopped empty | removeWokenStopped stopped empty =>
    cases pending
    cases result
    refine ⟨rfl,?_⟩
    rw [hclosed stopped,show m.box.messages = [] from h.empty empty]
    exact .popClosed
  | removeEmpty running empty =>
    cases pending
    cases result
    refine ⟨rfl,?_⟩
    rw [hopen running,show m.box.messages = [] from h.empty empty]
    exact .popEmpty
  | removeSignalled running empty signalled | removeInterrupted running empty signalled =>
    cases pending
    cases result
    refine ⟨rfl,?_⟩
    rw [hopen running,signalled,show m.box.messages = [] from h.empty empty]
    exact .popInterrupted
  | removeNow | removeWoken =>
    rw [dequeResult_message] at result
    cases result
  | addNow | addWoken | stopNow | claimNow | unclaimNow | freeNow => cases result

/-- A receive takes the first message, or the list head where one is owed. -/
lemma Counted.takes (h : m.Counted) {e : ListEntry MessagePtr}
    (locked : Locked a sig m cs m' (.returned (.message e))) :
    (∃ x, e = .node x ∧ m'.box = { m.box with messages := m'.messages } ∧
      Commit 32 (.pop true) m.box.messages m.box.closed m'.messages m.box.closed (some x)) ∨
    e = .head ∧ m.box.messages = [] ∧ ∃ n, m.box.owes = n + 1 ∧ m'.box = { m.box with owes := n } := by
  have hbox : m'.box = ⟨m.owner,m.messages.tail,m.box.closed,
      (m.messageCount - 1 - m.messages.tail.length).toNat⟩ := by
    cases locked <;> rfl
  obtain ⟨rfl,hcount,hmessages⟩ := locked.takes
  rw [hmessages,hbox]
  cases hm : m.messages with
  | nil =>
    right
    have hlow := h.bounded.1
    refine ⟨rfl,hm,(m.messageCount - 1).toNat,?_,?_⟩
    · simp only [box,hm,List.length_nil]
      omega
    · simp [box,hm]
  | cons x rest =>
    left
    refine ⟨x,rfl,?_,?_⟩
    · simp only [box,hm,List.tail_cons,List.length_cons,Box.mk.injEq,true_and]
      omega
    · rw [show m.box.messages = _ from hm]
      exact .pop

/-- An add that is done leaves its message at its end of the queue. -/
lemma Counted.pushed (h : m.Counted) {x : MessagePtr} {head : Bool}
    (locked : Locked a sig m cs m' (.returned (.code .ok))) (adding : cs.adding = some (x,head)) :
    m'.box = { m.box with messages := m'.messages } ∧
      Commit 32 (.push x head true) m.box.messages m.box.closed m'.messages m.box.closed none := by
  cases locked with
  | addNow running room | addWoken running room =>
    cases adding
    exact ⟨h.box_insertMessage running _ _,h.commit running room _ _ _⟩
  | _ => cases adding

lemma Counted.box_flushed (h : m.Counted) (a : Actor) : (m.flushed a).box =
    { m.box with messages := [], owes := m.box.owes + m.box.messages.length } := by
  have howes : (m.flushed a).box.owes = m.box.owes + m.box.messages.length := by
    change (m.messageCount - ((0 : ℕ) : ℤ)).toNat =
      (m.messageCount - m.messages.length).toNat + m.messages.length
    rcases h.counts with hexact | ⟨-,hempty⟩
    · unfold Exact at hexact
      omega
    · simp [hempty]
  rw [← howes]
  rfl

/-- A task that stays in its mailbox function has changed nothing that the users see. -/
lemma Locked.box_stays {pr : Progress MessagePtr} {cs' : CallState MessagePtr} {k : Cont}
    (h : Locked a sig m cs m' pr) (stays : pr.callState = some cs') (fits : k.Fits cs) :
    pr = .next cs' ∧ m'.box = m.box ∧ cs'.adding = cs.adding := by
  have hdestroys : ¬ cs.Destroys := by
    intro hcs
    cases k with
    | added | putBack =>
      obtain ⟨x,hx⟩ := fits
      cases cs <;> first | exact hcs | cases hx
    | removed ptrs => rcases fits with ⟨block,rfl⟩ | rfl <;> exact hcs
    | claimed | refused | unclaimed | delivered | stopped | hook =>
      cases fits
      exact hcs
  cases h with
  | addSleep | addAgain | removeSleep | removeAgain =>
    cases stays
    exact ⟨rfl,rfl,rfl⟩
  | destroyStop => exact absurd trivial hdestroys
  | flushSleep flushing | flushNow flushing | unclaimedSleep flushing | unclaimedNow flushing =>
    rcases flushing with rfl | rfl <;> exact absurd trivial hdestroys
  | _ => cases stays

end Mailbox

namespace System
open Service
variable {hash32 : Pid → ℕ} {sig : Actor → Bool} {s s' : System} {act : Action}
  {tr : List (System × Action)} {p : Pid} {m : ℕ} {cs : CallState MessagePtr}

/-- The mailboxes, the table and the hands of the tasks. -/
def service (hash32 : Pid → ℕ) (s : System) : Service where
  boxes m := if m < s.mailboxesCreated then some (s.mailboxes m).box else none
  current := s.get hash32
  hands := s.holding

/-- What is refused to the task in its step. -/
def refusal (s : System) (p : Pid) : Option Event :=
  match s.pc p with
  | .onMailbox m cs _ =>
    (Mailbox.criticalSection (.task p) (s.signalPending (.task p)) (s.mailboxes m) cs).2.refusal p m cs
  | _ => none

/-- What happens in the step. -/
def events (hash32 : Pid → ℕ) (s : System) : Action → List Event
  | .run p o => ((s.effect hash32 p (.run p o)).map (.did p)).toList ++ (s.refusal p).toList
  | .runDeletion k _ =>
    match s.deletions k with
    | some ⟨_,.unlink pid⟩ => [.unlink pid]
    | some ⟨m,.destroying cs⟩ =>
      match cs,(Mailbox.criticalSection (.kthread k) (s.signalPending (.kthread k))
        (s.mailboxes m) cs).2 with
      | .destroy,_ => [.close m]
      | _,.flushed _ => [.flush m]
      | _,_ => []
    | _ => []
  | _ => []

lemma boxCounted_of_run (h : Run (step hash32) (initial sig) tr s) (created : m < s.mailboxesCreated) :
    (s.mailboxes m).Counted := by
  obtain ⟨pending,tr',hrun⟩ := project_run h created
  obtain ⟨hbounded,hmax⟩ := mailbox_bounded h created
  exact ⟨(MailboxSystem.countInvariant_of_run hrun).counts,hbounded,hmax⟩

lemma service_initial : (initial sig).service hash32 = .empty := by
  ext1
  · funext m
    change (if m < 0 then some ((initial sig).mailboxes m).box else none) = none
    exact if_neg (Nat.not_lt_zero m)
  · rfl
  · rfl

/-- A step that its users do not see. -/
lemma service_eq (mailboxes : s'.mailboxes = s.mailboxes)
    (created : s'.mailboxesCreated = s.mailboxesCreated) (table : s'.table = s.table)
    (holding : s'.holding = s.holding) : s'.service hash32 = s.service hash32 := by
  have howner : s'.owner = s.owner := by
    funext m
    exact congrArg Mailbox.owner (congrFun mailboxes m)
  ext1
  · funext m
    change (if m < s'.mailboxesCreated then some (s'.mailboxes m).box else none) =
      if m < s.mailboxesCreated then some (s.mailboxes m).box else none
    rw [mailboxes,created]
  · funext pid
    change hashtableGet hash32 s'.owner s'.table pid = hashtableGet hash32 s.owner s.table pid
    rw [howner,table]
  · exact holding

/-- What a section leaves behind. -/
lemma service_section {a : Actor} {m' : Mailbox Actor MessagePtr} {pr : Progress MessagePtr}
    (locked : s.Section a m cs m' pr) (lt : m < s.mailboxesCreated)
    (mailboxes : s'.mailboxes = (s.setMailbox m m').mailboxes)
    (created : s'.mailboxesCreated = s.mailboxesCreated) (table : s'.table = s.table) :
    s'.service hash32 = { (s.service hash32).setBox m m'.box with hands := s'.holding } := by
  have howner : s'.owner = s.owner := by
    rw [← locked.owner]
    funext n
    exact congrArg Mailbox.owner (congrFun mailboxes n)
  ext1
  · funext n
    change (if n < s'.mailboxesCreated then some (s'.mailboxes n).box else none) =
      Function.update (s.service hash32).boxes m (some m'.box) n
    rw [mailboxes,created]
    by_cases hn : n = m
    · subst n
      rw [Function.update_self,setMailbox_self,if_pos lt]
    · rw [Function.update_of_ne hn,setMailbox_of_ne s hn]
      rfl
  · funext pid
    change hashtableGet hash32 s'.owner s'.table pid = hashtableGet hash32 s.owner s.table pid
    rw [howner,table]
  · rfl

lemma box_of_lt (lt : m < s.mailboxesCreated) :
    (s.service hash32).boxes m = some (s.mailboxes m).box := if_pos lt

/-- The events of a step inside a mailbox function. -/
lemma events_section {o : Oracle} {k : Cont} {m' : Mailbox Actor MessagePtr}
    {pr : Progress MessagePtr} (pc : s.pc p = .onMailbox m cs k)
    (locked : s.Section (.task p) m cs m' pr) :
    s.events hash32 (.run p o) = ((pr.effect m cs).map (.did p)).toList ++ (pr.refusal p m cs).toList := by
  simp only [events,effect_section pc locked,refusal,pc,locked.result]

section Returned
variable {o : Oracle} {k : Cont} {m' : Mailbox Actor MessagePtr} {r : Ret MessagePtr}
  (pc : s.pc p = .onMailbox m cs k) (locked : s.Section (.task p) m cs m' (.returned r))
  (lt : m < s.mailboxesCreated)
include pc locked lt

omit pc in
lemma service_returned : (s.returnFrom p m k m' r).service hash32 =
    ((s.service hash32).setBox m m'.box).setHand p (k.resume m r).holding := by
  refine (service_section locked lt ?_ ?_ ?_).trans (congrArg _ (holding_setPc _ _ _)) <;> rfl

/-- A task that is refused goes on with nothing in its hands. -/
lemma steps_refused (counted : (s.mailboxes m).Counted) (fits : k.Fits cs) {op : Op MessagePtr}
    {reason : Refusal} (pending : dequeStatus (some cs) = .pending op)
    (result : dequeResult r = .error reason) :
    Steps Service.Step (s.service hash32) (s.events hash32 (.run p o))
      ((s.returnFrom p m k m' r).service hash32) := by
  obtain ⟨code,rfl,hcode⟩ := Mailbox.code_of_refused result
  have hnot : ∀ y, k ≠ .delivered y := by
    rintro y rfl
    obtain rfl : cs = .unclaim := fits
    cases pending
  have hhas : (s.service hash32).hands p = brings op := by
    change (s.pc p).holding = _
    rw [pc,holding_onMailbox hnot,Mailbox.brings_eq pending]
  obtain ⟨hbox,hrefused⟩ := counted.refused locked.2 pending result
  have hevents : s.events hash32 (.run p o) = [.refused p m op reason] := by
    rw [events_section pc locked,Mailbox.effect_of_refused hcode]
    simp [Progress.refusal,pending,result]
  rw [hevents,service_returned locked lt,hbox,setBox_self (box_of_lt lt),
    holding_resume_code m code k hnot]
  exact .one (.refuse (box_of_lt lt) hhas hrefused)

/-- A task whose add is done has put down its message. -/
lemma steps_pushed (counted : (s.mailboxes m).Counted) (fits : k.Fits cs) {x : MessagePtr}
    {head : Bool} (adding : cs.adding = some (x,head)) (done : r = .code .ok) :
    Steps Service.Step (s.service hash32) (s.events hash32 (.run p o))
      ((s.returnFrom p m k m' r).service hash32) := by
  subst done
  have hnot := fun y => fits.not_delivered adding y
  have hhas : (s.service hash32).hands p = some x := by
    change (s.pc p).holding = some x
    rw [pc,holding_onMailbox hnot,adding]
    rfl
  obtain ⟨hbox,hcommit⟩ := counted.pushed locked.2 adding
  have hevents : s.events hash32 (.run p o) = [.did p (.push m x head)] := by
    rw [events_section pc locked]
    cases cs <;> cases adding <;> rfl
  rw [hevents,service_returned locked lt,hbox,holding_resume_code m .ok k hnot]
  exact .one (@Service.Step.push _ p m _ x head true _ (box_of_lt lt) hhas hcommit)

/-- A task that has taken a message has it in its hands. -/
lemma steps_popped (counted : (s.mailboxes m).Counted) {ptrs : RecievePtrs} (fits : cs.Removes)
    (isRemoved : k = .removed ptrs) {e : ListEntry MessagePtr} (done : r = .message e) :
    Steps Service.Step (s.service hash32) (s.events hash32 (.run p o))
      ((s.returnFrom p m k m' r).service hash32) := by
  subst isRemoved done
  have hfree : (s.service hash32).hands p = none := by
    change (s.pc p).holding = none
    rw [pc]
    exact congrArg (Option.map Prod.fst) (removes_adding fits)
  have hevents : s.events hash32 (.run p o) = [.did p (.pop m (.ofEntry m e))] := by
    rw [events_section pc locked]
    rcases fits with ⟨block,rfl⟩ | rfl <;> simp [Progress.effect,Progress.refusal,Mailbox.dequeResult_message]
  rw [hevents,service_returned locked lt]
  rcases counted.takes locked.2 with ⟨x,rfl,hbox,hcommit⟩ | ⟨rfl,hempty,n,howes,hbox⟩
  · rw [hbox]
    exact .one (.pop (box_of_lt lt) hfree hcommit)
  · rw [hbox]
    exact .one (.popOwed (box_of_lt lt) hfree hempty howes)

/-- A claim, an unclaim or a stop is over with its section. -/
lemma steps_once {x : Option MessagePtr} {b : Box} {e : Effect} (done : r = .code .ok)
    (has : s.holding p = x) (keeps : (k.resume m (.code .ok)).holding = x)
    (effect : (Progress.returned (.code .ok)).effect m cs = some e)
    (refusal : (Progress.returned (.code .ok)).refusal p m cs = none) (box : m'.box = b)
    (step : Service.Step (s.service hash32) (.did p e) ((s.service hash32).setBox m b)) :
    Steps Service.Step (s.service hash32) (s.events hash32 (.run p o))
      ((s.returnFrom p m k m' r).service hash32) := by
  subst done
  have hevents : s.events hash32 (.run p o) = [.did p e] := by
    rw [events_section pc locked,effect,refusal]
    rfl
  rw [hevents,service_returned locked lt,keeps,box,setHand_self has]
  exact .one step

/-- A task comes back from its mailbox function. -/
theorem steps_returned (h : Run (step hash32) (initial sig) tr s) :
    Steps Service.Step (s.service hash32) (s.events hash32 (.run p o))
      ((s.returnFrom p m k m' r).service hash32) := by
  have hc := consistent_of_run h
  have hcounted := boxCounted_of_run h lt
  have hbox : (s.service hash32).boxes m = some (s.mailboxes m).box := box_of_lt lt
  have hsame : (s.service hash32).setBox m (s.mailboxes m).box = s.service hash32 := setBox_self hbox
  have hfits := hc.fits p
  have hhas : s.holding p = (Pc.onMailbox m cs k).holding := congrArg Pc.holding pc
  rw [pc] at hfits
  cases k with
  | claimed fresh c =>
    obtain rfl : cs = .claim := hfits
    have hlocks : (s.pc p).role.Locks m := by
      rw [pc]
      rfl
    have hcurrent : s.get hash32 (s.owner m) = some m :=
      (get_eq_some_iff hc.table).mpr ⟨((coherent_of_run h).locks hlocks).2,rfl⟩
    cases locked.2
    refine steps_once pc locked lt rfl hhas ?_ rfl rfl rfl ?_
    · cases fresh with
      | true => exact holding_begin m c
      | false => rfl
    · have hclaim : Service.Step (s.service hash32) (.did p (.claim m)) (s.service hash32) :=
        .claim hbox hcurrent
      exact hsame.symm ▸ hclaim
  | refused | unclaimed code | delivered x =>
    obtain rfl : cs = .unclaim := hfits
    cases locked.2
    refine steps_once pc locked lt rfl hhas rfl rfl rfl (Mailbox.box_unclaim _) ?_
    rw [hsame]
    exact .unclaim hbox
  | added | putBack =>
    obtain ⟨x,hadding⟩ := hfits
    rcases locked.2.added hadding with ⟨rfl,-⟩ | ⟨code,hcode,rfl,-⟩
    · exact steps_pushed pc locked lt hcounted ⟨x,hadding⟩ hadding rfl
    · obtain ⟨op,hpending⟩ := Mailbox.pending_of_adding hadding
      obtain ⟨reason,hresult⟩ := Mailbox.dequeResult_error hcode
      exact steps_refused pc locked lt hcounted ⟨x,hadding⟩ hpending hresult
  | removed ptrs =>
    cases r with
    | message e => exact steps_popped pc locked lt hcounted hfits rfl rfl
    | code code =>
      obtain ⟨op,hpending⟩ := Mailbox.pending_of_removes hfits
      obtain ⟨reason,hresult⟩ := Mailbox.dequeResult_error (locked.2.remove_error hfits)
      exact steps_refused pc locked lt hcounted hfits hpending hresult
  | stopped | hook group =>
    obtain rfl : cs = .stop _ := hfits
    cases locked.2
    have hstop : ∀ status, status ≠ 0 → ((s.mailboxes m).stop status).box =
        { (s.mailboxes m).box with closed := true } := by
      intro status hne
      simp [Mailbox.box,Mailbox.stop,Mailbox.wakeUpLocked,hne]
    refine steps_once pc locked lt rfl hhas rfl rfl rfl (hstop _ (by decide)) ?_
    exact .stop hbox (by decide)

end Returned

/-- A task goes on without anybody seeing it. -/
lemma steps_quiet {c d : Pc} (pc : s.pc p = c) (same : d.holding = c.holding)
    (events : s.events hash32 act = []) (mailboxes : s'.mailboxes = s.mailboxes)
    (created : s'.mailboxesCreated = s.mailboxesCreated) (table : s'.table = s.table)
    (holding : s'.holding = Function.update s.holding p d.holding) :
    Steps Service.Step (s.service hash32) (s.events hash32 act) (s'.service hash32) := by
  rw [events,service_eq mailboxes created table (holding.trans (holding_kept pc same))]
  exact .refl

/-- The events of a step at a point where nothing happens. -/
lemma events_of_idle {o : Oracle} {c : Pc} (pc : s.pc p = c) (idle : c.call = none)
    (lookup : ∀ pid c', c ≠ .lookup pid c') (create : ∀ m len block, c ≠ .createMessage m len block)
    (destroy : ∀ x, c ≠ .destroyMessage x) : s.events hash32 (.run p o) = [] := by
  simp only [events,effect_of_idle pc idle lookup create destroy,refusal,pc]
  cases c with
  | onMailbox m cs k => cases idle
  | _ => rfl

/-- The events of a step at a point where a message or a mailbox may be made. -/
lemma events_of_outside {o : Oracle} {c : Pc} (pc : s.pc p = c) (idle : c.call = none) :
    s.events hash32 (.run p o) = ((s.effect hash32 p (.run p o)).map (.did p)).toList := by
  simp only [events,refusal,pc]
  cases c with
  | onMailbox m cs k => cases idle
  | _ => exact List.append_nil _

lemma service_createMailbox (hc : Consistent hash32 s) (p pid : Pid) (c : Syscall)
    (free : s.holding p = none) : (s.createMailbox hash32 p pid c).service hash32 =
      { (s.service hash32).setBox s.mailboxesCreated ⟨pid,[],false,0⟩ with
        current := Function.update (s.service hash32).current pid (some s.mailboxesCreated) } := by
  ext1
  · funext m
    change (if m < s.mailboxesCreated + 1 then
      some ((s.setMailbox s.mailboxesCreated (.create pid)).mailboxes m).box else none) =
        Function.update (s.service hash32).boxes s.mailboxesCreated _ m
    by_cases hm : m = s.mailboxesCreated
    · subst m
      rw [Function.update_self,setMailbox_self,if_pos (Nat.lt_succ_self _)]
      rfl
    · rw [Function.update_of_ne hm,setMailbox_of_ne s hm]
      exact if_congr (by omega) rfl rfl
  · funext key
    change (s.createMailbox hash32 p pid c).get hash32 key =
      Function.update (s.service hash32).current pid _ key
    by_cases hkey : key = pid
    · subst key
      rw [Function.update_self,hc.get_createMailbox]
    · rw [Function.update_of_ne hkey]
      refine (get_put_of_ne (hc.table_create pid) hc.not_linked_created (owner_create_self s pid)
        hkey).trans ?_
      exact get_congr hc.table fun m hm => hc.owner_create pid hm
  · change (s.createMailbox hash32 p pid c).holding = s.holding
    exact (holding_setPc _ _ _).trans (Function.update_eq_self_iff.mpr free.symm)

/-- A new message is nowhere yet. -/
lemma step_make (h : Run (step hash32) (initial sig) tr s) (free : s.holding p = none) :
    Service.Step (s.service hash32) (.did p (.make (.object s.messages.created)))
      ((s.service hash32).setHand p (some (.object s.messages.created))) := by
  have hinv := (custodyInvariant_of_run h).custody
  have hnew : ¬ s.custody.created s.messages.created := Nat.lt_irrefl _
  refine .make free (fun q => hinv.not_has hnew (.call q)) ?_
  intro m b hb
  have hbox : (if m < s.mailboxesCreated then some (s.mailboxes m).box else none) = some b := hb
  split_ifs at hbox with hlt
  cases hbox
  exact hinv.not_has hnew (.mailbox m)

/-- A mailbox that its deletion thread has taken out of the table is not its process's any more. -/
lemma not_current (h : Run (step hash32) (initial sig) tr s) {k : ℕ}
    (deletion : s.deletions k = some ⟨m,.destroying cs⟩) : s.get hash32 (s.owner m) ≠ some m := by
  intro hcurrent
  have hretirer : s.registry.retirer k = some (m,(DeletionPc.destroying cs).phase) := by
    change (s.deletions k).map DeletionThread.retirer = _
    rw [deletion]
    rfl
  refine (coherent_of_run h).unlinked hretirer ?_ (linked_of_get hcurrent).1
  cases cs <;> trivial

/-- A deletion thread takes a section of its mailbox. -/
lemma steps_kthread {k : ℕ} {o : Oracle} {m' : Mailbox Actor MessagePtr} {pr : Progress MessagePtr}
    (h : Run (step hash32) (initial sig) tr s) (deletion : s.deletions k = some ⟨m,.destroying cs⟩)
    (locked : s.Section (.kthread k) m cs m' pr) (mailboxes : s'.mailboxes = (s.setMailbox m m').mailboxes)
    (created : s'.mailboxesCreated = s.mailboxesCreated) (table : s'.table = s.table)
    (pcs : s'.pc = s.pc) :
    Steps Service.Step (s.service hash32) (s.events hash32 (.runDeletion k o))
      (s'.service hash32) := by
  have hc := consistent_of_run h
  have lt : m < s.mailboxesCreated := (inBounds_of_run h).deletion_lt deletion
  have hbox : (s.service hash32).boxes m = some (s.mailboxes m).box := box_of_lt lt
  have hold := not_current h deletion
  have hdestroys := hc.destroys k _ deletion
  have hafter : s'.service hash32 = (s.service hash32).setBox m m'.box := by
    rw [service_section locked lt mailboxes created table]
    have hholding : s'.holding = (s.service hash32).hands := congrArg (fun f p => (f p).holding) pcs
    rw [hholding]
    rfl
  rw [hafter]
  simp only [events,deletion,locked.result]
  cases locked.2 with
  | destroyStop =>
    have hclosed : ((s.mailboxes m).stop (exitingFlag ||| stoppedFlag)).box =
        { (s.mailboxes m).box with closed := true } := by
      simp [Mailbox.box,Mailbox.stop,Mailbox.wakeUpLocked]
    rw [hclosed]
    exact .one (.close hbox hold)
  | flushNow flushing =>
    have hstopped : (s.mailboxes m).stopped ≠ 0 := by
      obtain ⟨pending,tr',hrun⟩ := project_run h lt
      refine (MailboxSystem.stopInvariant_of_run hrun).destroying (.kthread k) ?_
      have hcalls : (s.project m).calls (.kthread k) = some cs :=
        callsOn_eq_some_iff.mpr (call_kthread deletion)
      rw [hcalls]
      rcases flushing with rfl | rfl <;> simp [MailboxSystem.Destroying]
    rw [(boxCounted_of_run h lt).box_flushed (.kthread k)]
    rcases flushing with rfl | rfl <;> exact .one (.flush hbox hold (decide_eq_true hstopped))
  | flushSleep waiting | unclaimedSleep waiting | unclaimedNow waiting =>
    have hsame := setBox_self hbox
    rcases waiting with rfl | rfl <;> exact hsame.symm ▸ .refl
  | freeNow =>
    have hsame := setBox_self hbox
    exact hsame.symm ▸ .refl
  | _ => exact False.elim hdestroys

/-- Every step of the system is what it shows as a step of the service. -/
theorem steps_stepped (h : Run (step hash32) (initial sig) tr s) (hs : Stepped hash32 s act s') :
    Steps Service.Step (s.service hash32) (s.events hash32 act) (s'.service hash32) := by
  have hc := consistent_of_run h
  have hfits := hc.fits
  have hbounds := inBounds_of_run h
  cases hs with
  | newProcess old | clone caller alive old | reap old | enter old | exit old | exitGroup old
  | killed old =>
    exact steps_quiet old rfl rfl rfl rfl rfl (holding_setPc _ _ _)
  | fatalSignal | signal | handle =>
    exact .refl
  | valid pc | invalid pc | refused pc | countFault pc | copied pc | copyFault pc | lastThread pc
  | otherThread pc | removalFound pc | removalMissing pc | deletionStarted pc | deletionFailed pc
  | realExit pc | decrementLive pc | die pc =>
    exact steps_quiet pc rfl (events_of_idle pc rfl nofun nofun nofun) rfl rfl rfl (holding_setPc _ _ _)
  | granted pc =>
    exact steps_quiet pc (holding_begin _ _) (events_of_idle pc rfl nofun nofun nofun) rfl rfl rfl
      (holding_setPc _ _ _)
  | countCopied pc =>
    refine steps_quiet pc ?_ (events_of_idle pc rfl nofun nofun nofun) rfl rfl rfl
      (holding_setPc _ _ _)
    split <;> rfl
  | found pc unlocked found =>
    refine steps_quiet pc rfl ?_ rfl rfl rfl (holding_setPc _ _ _)
    rw [events_of_outside pc rfl]
    simp [effect,pc,found]
  | outOfMemory pc unlocked missing full =>
    refine steps_quiet pc rfl ?_ rfl rfl rfl (holding_setPc _ _ _)
    rw [events_of_outside pc rfl]
    simp [effect,pc,full]
  | @created p o pid c pc unlocked missing memory =>
    have hfree : s.holding p = none := congrArg Pc.holding pc
    have hnew : (s.service hash32).boxes s.mailboxesCreated = none := if_neg (Nat.lt_irrefl _)
    have hevents : s.events hash32 (.run p o) = [.did p (.create s.mailboxesCreated)] := by
      rw [events_of_outside pc rfl]
      simp [effect,pc,missing,memory]
    rw [hevents,service_createMailbox hc p pid c hfree]
    exact .one (.create hnew missing)
  | @stays p o m cs k m' pr cs' pc locked stays =>
    have lt : m < s.mailboxesCreated := hbounds.tasks p m (by rw [pc]; rfl)
    have hfits := hc.fits p
    rw [pc] at hfits
    obtain ⟨rfl,hbox,hadding⟩ := locked.2.box_stays stays hfits
    have hnot : ∀ x, k ≠ .delivered x := by
      rintro x rfl
      obtain rfl : cs = .unclaim := hfits
      have hover := locked.2.once (.inr (.inl rfl))
      cases hover
    have hholding : ((s.setMailbox m m').setPc p (.onMailbox m cs' k)).holding = s.holding := by
      refine (holding_setPc _ _ _).trans (holding_kept pc ?_)
      rw [holding_onMailbox hnot,holding_onMailbox hnot,hadding]
    have hservice : ((s.setMailbox m m').setPc p (.onMailbox m cs' k)).service hash32 = _ :=
      service_section locked lt rfl rfl rfl
    rw [hservice,hbox,setBox_self (box_of_lt lt),hholding,events_section pc locked]
    exact .refl
  | @returned p o m cs k m' r pc locked =>
    exact steps_returned pc locked (hbounds.tasks p m (by rw [pc]; rfl)) h
  | @messageCreated p o m len block cache x pc made =>
    have hfree : s.holding p = none := congrArg Pc.holding pc
    obtain ⟨-,-,-,rfl,-⟩ := MessageCache.create_eq_ok made
    have hevents : s.events hash32 (.run p o) = [.did p (.make (.object s.messages.created))] := by
      rw [events_of_outside pc rfl]
      simp [effect,pc,made]
    have hmade : Service.Step (s.service hash32) _ _ := step_make h hfree
    rw [hevents]
    refine .one ?_
    convert hmade using 1
    exact Service.ext rfl rfl (holding_setPc _ _ _)
  | messageFailed pc failed =>
    refine steps_quiet pc rfl ?_ rfl rfl rfl (holding_setPc _ _ _)
    rw [events_of_outside pc rfl]
    simp [effect,pc,failed]
  | @destroyed p o x pc =>
    have hhas : s.holding p = some x := congrArg Pc.holding pc
    have hevents : s.events hash32 (.run p o) = [.did p (.destroy x)] := by
      rw [events_of_outside pc rfl]
      simp [effect,pc]
    have hdestroyed : Service.Step (s.service hash32) (.did p (.destroy x)) _ := .destroy hhas
    rw [hevents]
    refine .one ?_
    convert hdestroyed using 1
    exact Service.ext rfl rfl (holding_setPc _ _ _)
  | ownerRead deletion | stillValid deletion | exited deletion =>
    simp only [events,deletion]
    exact .refl
  | @unlinked k m o pid deletion =>
    simp only [events,deletion]
    have hunlinked : Service.Step (s.service hash32) (.unlink pid) _ := .unlink
    refine .one ?_
    convert hunlinked using 1
    refine Service.ext rfl ?_ rfl
    funext key
    change hashtableGet hash32 s.owner (hashtableRemove hash32 s.owner s.table pid) key =
      Function.update (s.get hash32) pid none key
    by_cases hkey : key = pid
    · subst key
      rw [Function.update_self,get_remove_self hc.table]
    · rw [Function.update_of_ne hkey,get_remove_of_ne hc.table hkey]
      rfl
  | destroyStays deletion locked | deleted deletion locked =>
    exact steps_kthread h deletion locked rfl rfl rfl rfl
  | @flushed k m o cs m' xs deletion locked =>
    exact steps_kthread h deletion locked rfl rfl rfl rfl

/-- All that happened in these steps. -/
def history (hash32 : Pid → ℕ) (tr : List (System × Action)) : List Event :=
  tr.flatMap fun x => x.1.events hash32 x.2

/-- Every run is one of the service. -/
theorem steps_of_run (h : Run (step hash32) (initial sig) tr s) :
    Steps Service.Step .empty (history hash32 tr) (s.service hash32) := by
  induction h with
  | refl =>
    rw [service_initial]
    exact .refl
  | snoc prior taken ih =>
    rw [history,List.flatMap_append,List.flatMap_singleton]
    exact ih.append (steps_stepped prior (step_stepped taken))

lemma history_snoc {i : ℕ} (early : i ≤ tr.length) : history hash32 ((tr ++ [(s,act)]).drop i) =
    history hash32 (tr.drop i) ++ s.events hash32 act := by
  rw [List.drop_append_of_le_length early,history,List.flatMap_append,List.flatMap_singleton]
  rfl

/-- What the task did, out of all that happened. -/
lemma done_events (p : Pid) (s : System) (act : Action) :
    Service.done p (s.events hash32 act) = (s.effect hash32 p act).toList := by
  cases act with
  | run q o =>
    have hrefusal : Service.done p (s.refusal q).toList = [] := by
      unfold refusal
      split
      · next m cs k hpc =>
        unfold Progress.refusal
        split
        · split <;> rfl
        · rfl
      · rfl
    change Service.done p (_ ++ _) = _
    rw [Service.done,List.filterMap_append,← Service.done,← Service.done,hrefusal,List.append_nil]
    by_cases hq : q = p
    · subst q
      cases s.effect hash32 p (.run p o) <;> simp [Service.done]
    · have hrests : (Action.run q o).moves ≠ some p := fun hmoves => hq (Option.some.inj hmoves)
      rw [effect_of_rests hrests]
      cases s.effect hash32 q (.run q o) <;> simp [Service.done,hq]
  | runDeletion k o =>
    change Service.done p (s.events hash32 (.runDeletion k o)) = []
    simp only [events]
    split
    · rfl
    · split <;> rfl
    · rfl
  | _ => rfl

lemma done_history (p : Pid) (tr : List (System × Action)) :
    Service.done p (history hash32 tr) = effects hash32 p tr := by
  induction tr with
  | nil => rfl
  | cons x tr ih =>
    have hhead : Service.done p (x.1.events hash32 x.2) = _ := done_events p x.1 x.2
    rw [history,List.flatMap_cons,Service.done,List.filterMap_append,← Service.done,← Service.done,
      hhead,← history,ih]
    unfold effects
    cases hx : x.1.effect hash32 p x.2 <;> simp [hx]

/-- A call that gives the state of its mailbox as the reason of its failure was refused for it. -/
def RefusalInvariant (hash32 : Pid → ℕ) (tr : List (System × Action)) (s : System) : Prop :=
  ∀ p code reason, (s.pc p).answers = some code → code.reason = some reason →
    ∃ i c m op, callOf p tr = some (i,c) ∧ .refused p m op reason ∈ history hash32 (tr.drop i)

theorem RefusalInvariant.stepped (inv : RefusalInvariant hash32 tr s) (calls : CallInvariant tr s)
    (hc : Consistent hash32 s) (h : Stepped hash32 s act s') :
    RefusalInvariant hash32 (tr ++ [(s,act)]) s' := by
  intro p code reason hanswers hreason
  -- the refusal was before this step
  have hearlier : (s.pc p).answers = some code → act.enters p = none →
      ∃ i c m op, callOf p (tr ++ [(s,act)]) = some (i,c) ∧
        .refused p m op reason ∈ history hash32 ((tr ++ [(s,act)]).drop i) := by
    intro hold hsame
    obtain ⟨i,c,m,op,hcall,hmem⟩ := inv p code reason hold hreason
    refine ⟨i,c,m,op,(callOf_kept tr s hsame).trans hcall,?_⟩
    rw [history_snoc (Nat.le_of_lt (callOf_lt hcall))]
    exact List.mem_append_left _ hmem
  -- or it is this step
  have hnow : ∀ {o m cs k}, act = .run p o → s.pc p = .onMailbox m cs k →
      (Pc.onMailbox m cs k).inCall = true → (∃ op, dequeStatus (some cs) = .pending op) →
      s.Section (.task p) m cs (s'.mailboxes m) (.returned (.code code)) →
      ∃ i c m op, callOf p (tr ++ [(s,act)]) = some (i,c) ∧
        .refused p m op reason ∈ history hash32 ((tr ++ [(s,act)]).drop i) := by
    rintro o m cs k rfl hpc hcalls ⟨op,hpending⟩ hlocked
    obtain ⟨i,c,hcall,-⟩ := calls.serves p (by rw [hpc]; exact hcalls)
    refine ⟨i,c,m,op,(callOf_kept tr s rfl).trans hcall,?_⟩
    rw [history_snoc (Nat.le_of_lt (callOf_lt hcall))]
    refine List.mem_append_right _ ?_
    rw [events_section hpc hlocked]
    have hresult := Code.dequeResult_reason hreason
    simp [Progress.refusal,hpending,hresult]
  cases h.taskStep p with
  | rests moves pc =>
    rw [pc] at hanswers
    exact hearlier hanswers (enters_of_rests moves)
  | stays action pc locked stays next =>
    subst act
    rw [next] at hanswers
    refine hearlier ?_ rfl
    rw [pc]
    exact answers_onMailbox.symm.trans hanswers
  | @returned o m cs k r action pc locked next =>
    have hfits := hc.fits p
    rw [pc] at hfits
    rw [next] at hanswers
    cases k with
    | added =>
      obtain ⟨x,hadding⟩ := hfits
      cases r with
      | message e =>
        cases hanswers
        cases hreason
      | code code' =>
        cases hanswers
        exact hnow action pc rfl (Mailbox.pending_of_adding hadding) locked
    | removed ptrs =>
      cases r with
      | message e => cases hanswers
      | code code' =>
        cases hanswers
        exact hnow action pc rfl (Mailbox.pending_of_removes hfits) locked
    | unclaimed code' =>
      subst act
      refine hearlier ?_ rfl
      rw [pc]
      exact hanswers
    | claimed fresh c =>
      cases fresh with
      | true =>
        rw [Cont.resume,answers_begin] at hanswers
        cases hanswers
      | false => cases hanswers
    | refused | putBack | stopped | delivered x | hook group =>
      cases hanswers <;> cases hreason
  | ends pc next exits | exiting pc next old exits =>
    rw [next,answers_of_exits exits] at hanswers
    cases hanswers
  | granted action pc alive next =>
    rw [next,answers_begin] at hanswers
    cases hanswers
  | messageFailed action pc failed next =>
    rw [next] at hanswers
    cases hanswers
    rcases MessageCache.create_code failed with ⟨rfl,-⟩ | ⟨-,rfl | rfl⟩ <;> cases hreason
  | @countCopied o m stop count action pc writable next =>
    rw [next] at hanswers
    cases stop <;> cases hanswers
    cases hreason
  | arrives _ next | leaves _ next | enters _ _ next | valid _ _ _ next | invalid _ _ next
  | found _ _ _ next | created _ _ _ _ _ next | outOfMemory _ _ next | refused _ _ _ next
  | messageCreated _ _ _ next | countFault _ _ _ next | copied _ _ _ next | copyFault _ _ _ next
  | destroyed _ _ _ next | removalFound _ _ _ next =>
    rw [next] at hanswers
    cases hanswers <;> cases hreason

theorem refusalInvariant_of_run (h : Run (step hash32) (initial sig) tr s) :
    RefusalInvariant hash32 tr s := by
  refine h.history_invariant (fun p code reason hanswers => by cases hanswers) ?_
  intro tr s act s' prior inv taken
  exact inv.stepped (callInvariant_of_run prior) (consistent_of_run prior) (step_stepped taken)

/-- Who is refused in a step has done nothing in it. -/
lemma effect_of_refusal {o : Oracle} {e : Event} (refused : s.refusal p = some e) :
    s.effect hash32 p (.run p o) = none := by
  unfold refusal at refused
  split at refused
  · next m cs k hpc =>
    have heffect : s.effect hash32 p (.run p o) = (Mailbox.criticalSection (.task p)
        (s.signalPending (.task p)) (s.mailboxes m) cs).2.effect m cs := by simp [effect,hpc]
    rw [heffect]
    unfold Progress.refusal at refused
    split at refused
    · next r hr =>
      split at refused
      · next op reason hpending hresult =>
        obtain ⟨code,rfl,hcode⟩ := Mailbox.code_of_refused hresult
        rw [hr]
        exact Mailbox.effect_of_refused hcode
      · cases refused
    · cases refused
  · cases refused

/-- At most one thing happens in a step. -/
lemma length_events_le (s : System) (act : Action) : (s.events hash32 act).length ≤ 1 := by
  cases act with
  | run p o =>
    change (((s.effect hash32 p (.run p o)).map (Event.did p)).toList ++ (s.refusal p).toList).length ≤ 1
    cases hrefused : s.refusal p with
    | none =>
      rw [Option.toList_none,List.append_nil]
      exact Option.length_toList_le
    | some e =>
      rw [effect_of_refusal hrefused]
      exact Nat.le_refl 1
  | runDeletion k o =>
    simp only [events]
    split
    · exact Nat.le_refl 1
    · split <;> simp
    · exact Nat.zero_le 1
  | _ => exact Nat.zero_le 1

/-- All that happens in the run is one history of the service, up to the state of the run, and at most
one thing happens in each of its steps. What a call has done between its entry and its return is one
of its courses, and where it returns the state of its mailbox as the reason of its failure, it was
refused for it in between. -/
structure Linearizes (hash32 : Pid → ℕ) (tr : List (System × Action)) (s : System) : Prop where
  legal : Steps Service.Step .empty (history hash32 tr) (s.service hash32)
  single : ∀ x ∈ tr, (x.1.events hash32 x.2).length ≤ 1
  calls : ∀ p code, s.pc p = .user (some code) → ∃ i c, callOf p tr = some (i,c) ∧
    Contract (s.Mine (s.key p c)) s.messages c code
      (Service.done p (history hash32 (tr.drop i))) (s.written p) ∧
    ∀ reason, code.reason = some reason →
      ∃ m op, .refused p m op reason ∈ history hash32 (tr.drop i)

/-- Whatever runs at once, the calls are those of a service that does one thing at a time. -/
theorem system_linearizes (h : Run (step hash32) (initial sig) tr s) : Linearizes hash32 tr s where
  legal := steps_of_run h
  single x _ := length_events_le x.1 x.2
  calls p code back := by
    obtain ⟨i,c,hcall,hsofar⟩ := contractInvariant_of_run h p (by rw [back]; rfl)
    rw [back] at hsofar
    refine ⟨i,c,hcall,?_,?_⟩
    · rw [done_history]
      exact hsofar
    · intro reason hreason
      obtain ⟨i',c',m,op,hcall',hmem⟩ := refusalInvariant_of_run h p code reason (by rw [back]; rfl) hreason
      rw [hcall] at hcall'
      cases hcall'
      exact ⟨m,op,hmem⟩

/-- Process 1002 looks for a message while 1001 makes a mailbox for it and sends it one. -/
theorem system_linearizes_on_race : ∃ (tr : List (System × Action)) (s : System),
    Run (step goldenHash32) (initial fun _ => false) tr s ∧
      s.pc 1002 = .user (some .mailboxEmpty) ∧ Linearizes goldenHash32 tr s ∧
      history goldenHash32 tr = [.did 1001 (.create 0),.did 1001 (.claim 0),.did 1002 (.claim 0),
        .did 1001 (.make (.object 0)),.refused 1002 0 (.pop false) .empty,
        .did 1001 (.push 0 (.object 0) false),.did 1002 (.unclaim 0),.did 1001 (.unclaim 0)] := by
  obtain ⟨tr,s,hrun,htest⟩ := exists_run_of_execute (step goldenHash32) (initial fun _ => false)
    ([.newProcess 1001 1000,.newProcess 1002 1000,.enter 1001 (.sendMessage 1002 0 false),
        .enter 1002 (.recieveMessage ⟨4,4,4⟩ false)] ++ runs 1001 3 ++ runs 1002 4 ++
      runs 1001 1 ++ runs 1002 1 ++ runs 1001 1 ++ runs 1002 1 ++ runs 1001 1)
    (fun tr s => decide (s.pc 1002 = .user (some .mailboxEmpty) ∧
      history goldenHash32 tr = [.did 1001 (.create 0),.did 1001 (.claim 0),.did 1002 (.claim 0),
        .did 1001 (.make (.object 0)),.refused 1002 0 (.pop false) .empty,
        .did 1001 (.push 0 (.object 0) false),.did 1002 (.unclaim 0),.did 1001 (.unclaim 0)]))
    (by decide +kernel)
  obtain ⟨hback,hhistory⟩ := of_decide_eq_true htest
  exact ⟨tr,s,hrun,hback,system_linearizes hrun,hhistory⟩

end System
end ProcessMessagePassing
