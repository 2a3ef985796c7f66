import ProcessMessagePassing.Kernel.Tasks
import ProcessMessagePassing.Kernel.Threads

/-! Which call a task is in. The program counter keeps only what the rest of a call needs; the
trace has the call that was entered, and every point of a call fits the call it belongs to. -/
namespace ProcessMessagePassing
open Concurrency HashTable

/-- The call that the action makes for the task. -/
def Action.enters (p : Pid) : Action → Option Syscall
  | .enter q c => if q = p then some c else none
  | _ => none

/-- The task is between the entry to a call and the return from it. -/
def Pc.inCall : Pc → Bool
  | .validate _ _ => true
  | .lookup _ _ => true
  | .onMailbox _ _ (.hook _) => false
  | .onMailbox _ _ _ => true
  | .checkExiting _ _ => true
  | .createMessage _ _ _ => true
  | .copyCount _ _ _ => true
  | .copyToUser _ _ _ => true
  | .destroyMessage _ => true
  | _ => false

/-- The function of the mailbox was called with this flag. -/
def CallState.Blocks (block : Bool) : CallState MessagePtr → Prop
  | .addMessage _ b _ => b = block
  | .addWaiting _ _ => block = true
  | .removeMessage b => b = block
  | .removeWaiting => block = true
  | _ => True

/-- The mailbox function is one that the call runs, with the arguments of the call. -/
def Cont.Serves (cs : CallState MessagePtr) (c : Syscall) : Cont → Prop
  | .claimed _ c' => c' = c
  | .added => ∃ dest len block, c = .sendMessage dest len block ∧ cs.Blocks block
  | .removed ptrs => ∃ block, c = .recieveMessage ptrs block ∧ cs.Blocks block
  | .putBack => ∃ ptrs block, c = .recieveMessage ptrs block
  | .delivered _ => ∃ ptrs block, c = .recieveMessage ptrs block
  | .stopped => ∃ count, c = .manageMailbox true count
  | _ => True

/-- The point belongs to the call, which is about the mailbox of `key`. -/
def Pc.Serves (owner : ℕ → Pid) (key : Pid) (c : Syscall) : Pc → Prop
  | .validate pid c' => c' = c ∧ pid = key
  | .lookup pid c' => c' = c ∧ pid = key
  | .onMailbox _ _ (.hook _) => True
  | .onMailbox m cs k => owner m = key ∧ k.Serves cs c
  | .checkExiting m c' => owner m = key ∧ c' = c
  | .createMessage m len block => owner m = key ∧ ∃ dest, c = .sendMessage dest len block
  | .copyCount m stop count => owner m = key ∧ c = .manageMailbox stop count
  | .copyToUser m _ ptrs => owner m = key ∧ ∃ block, c = .recieveMessage ptrs block
  | .destroyMessage _ => ∃ ptrs block, c = .recieveMessage ptrs block
  | _ => True

namespace Mailbox
variable {a : Actor} {sig : Bool} {m m' : Mailbox Actor MessagePtr} {cs cs' : CallState MessagePtr}
  {pr : Progress MessagePtr}

lemma Locked.stays_blocks {block : Bool} (h : Locked a sig m cs m' pr) (blocks : cs.Blocks block)
    (stays : pr.callState = some cs') : cs'.Blocks block := by
  cases h with
  | addSleep | removeSleep => cases stays; exact blocks.symm
  | addAgain | removeAgain => cases stays; exact blocks
  | destroyStop | flushSleep | flushNow | unclaimedSleep | unclaimedNow => cases stays; trivial
  | _ => cases stays

end Mailbox

lemma serves_begin {owner : ℕ → Pid} {key : Pid} {m : ℕ} (c : Syscall) (h : owner m = key) :
    (c.begin m).Serves owner key c := by
  cases c with
  | sendMessage dest len block => exact ⟨h,dest,rfl⟩
  | recieveMessage ptrs block => exact ⟨h,block,rfl,rfl⟩
  | manageMailbox stop count => exact ⟨h,rfl⟩

/-- A point of a call on a mailbox is about the mailbox of the call. -/
lemma serves_onMailbox {owner : ℕ → Pid} {key : Pid} {c : Syscall} {m : ℕ}
    {cs : CallState MessagePtr} {k : Cont} (inCall : (Pc.onMailbox m cs k).inCall = true)
    (h : (Pc.onMailbox m cs k).Serves owner key c) : owner m = key ∧ k.Serves cs c := by
  cases k with
  | hook group => cases inCall
  | _ => exact h

lemma serves_resume {owner : ℕ → Pid} {key : Pid} {c : Syscall} {m : ℕ} {k : Cont}
    {cs : CallState MessagePtr} (r : Ret MessagePtr) (h : owner m = key) (serves : k.Serves cs c) :
    (k.resume m r).Serves owner key c := by
  cases k with
  | claimed fresh c' =>
    obtain rfl : c' = c := serves
    cases fresh with
    | true => exact serves_begin c' h
    | false => exact ⟨h,rfl⟩
  | removed ptrs =>
    obtain ⟨block,rfl,-⟩ := serves
    cases r with
    | code code => exact ⟨h,trivial⟩
    | message e => exact ⟨h,block,rfl⟩
  | added | putBack | stopped => exact ⟨h,trivial⟩
  | delivered x => exact serves
  | refused | unclaimed | hook => trivial

lemma serves_stays {owner : ℕ → Pid} {key : Pid} {c : Syscall} {m : ℕ} {k : Cont}
    {cs cs' : CallState MessagePtr} {a : Actor} {sig : Bool} {mb mb' : Mailbox Actor MessagePtr}
    {pr : Progress MessagePtr} (locked : Mailbox.Locked a sig mb cs mb' pr)
    (stays : pr.callState = some cs') (h : owner m = key) (serves : k.Serves cs c) :
    (Pc.onMailbox m cs' k).Serves owner key c := by
  cases k with
  | added =>
    obtain ⟨dest,len,block,rfl,hblocks⟩ := serves
    exact ⟨h,dest,len,block,rfl,locked.stays_blocks hblocks stays⟩
  | removed ptrs =>
    obtain ⟨block,rfl,hblocks⟩ := serves
    exact ⟨h,block,rfl,locked.stays_blocks hblocks stays⟩
  | hook group => trivial
  | claimed | refused | putBack | stopped | unclaimed | delivered => exact ⟨h,serves⟩

lemma inCall_of_resume {m n : ℕ} {r : Ret MessagePtr} {cs : CallState MessagePtr} {k : Cont}
    (h : (k.resume m r).inCall = true) : (Pc.onMailbox n cs k).inCall = true := by
  cases k with
  | hook group => cases h
  | _ => rfl

/-- Only the owner of its mailbox matters to a point of a call. -/
lemma Pc.Serves.congr {owner owner' : ℕ → Pid} {key : Pid} {c : Syscall} {pc : Pc}
    (h : pc.Serves owner key c) (same : ∀ m, pc.mailbox = some m → owner' m = owner m) :
    pc.Serves owner' key c := by
  cases pc with
  | onMailbox m cs k =>
    have hm := same m rfl
    cases k with
    | hook group => trivial
    | _ => exact ⟨hm.trans h.1,h.2⟩
  | checkExiting m c' | createMessage m len block | copyCount m stop count
  | copyToUser m x ptrs => exact ⟨(same m rfl).trans h.1,h.2⟩
  | _ => exact h

lemma inCall_of_exits {c : Pc} (h : c.exits = true) : c.inCall = false := by
  cases c with
  | onMailbox m cs k => cases h
  | validate | lookup | checkExiting | createMessage | copyCount | copyToUser | destroyMessage =>
    cases h
  | _ => rfl

namespace System
variable {hash32 : Pid → ℕ} {sig : Actor → Bool} {s s' : System} {act : Action}
  {tr : List (System × Action)} {p : Pid} {c : Syscall}

/-- The call that the task has entered last: its place in the trace, and its arguments. -/
def callOf (p : Pid) (tr : List (System × Action)) : Option (ℕ × Syscall) :=
  (tr.zipIdx.filterMap fun x => (x.1.2.enters p).map fun c => (x.2,c)).getLast?

lemma callOf_snoc (p : Pid) (tr : List (System × Action)) (s : System) (act : Action) :
    callOf p (tr ++ [(s,act)]) =
      ((act.enters p).map fun c => (tr.length,c)).or (callOf p tr) := by
  unfold callOf
  rw [List.zipIdx_append,List.filterMap_append,List.getLast?_append]
  cases h : act.enters p with
  | none => simp [h]
  | some c => simp [h]

lemma callOf_entered (tr : List (System × Action)) (s : System) :
    callOf p (tr ++ [(s,.enter p c)]) = some (tr.length,c) := by
  rw [callOf_snoc]
  simp [Action.enters]

lemma callOf_kept (tr : List (System × Action)) (s : System) (h : act.enters p = none) :
    callOf p (tr ++ [(s,act)]) = callOf p tr := by
  rw [callOf_snoc,h]
  rfl

lemma callOf_run (tr : List (System × Action)) (s : System) (o : Oracle) (q : Pid) :
    callOf p (tr ++ [(s,.run q o)]) = callOf p tr := callOf_kept tr s rfl

lemma enters_of_rests (h : act.moves ≠ some p) : act.enters p = none := by
  cases act with
  | enter q c =>
    refine if_neg ?_
    rintro rfl
    exact h rfl
  | _ => rfl

/-- Where a call stands in the trace, the trace has its entry. -/
lemma callOf_entry {i : ℕ} (h : callOf p tr = some (i,c)) :
    ∃ s, tr[i]? = some (s,.enter p c) := by
  have hmem := List.mem_of_getLast? h
  obtain ⟨⟨⟨s,act⟩,j⟩,hx,hmap⟩ := List.mem_filterMap.mp hmem
  obtain ⟨c',hc',he⟩ := Option.map_eq_some_iff.mp hmap
  obtain ⟨rfl,rfl⟩ : j = i ∧ c' = c := Prod.mk.inj he
  have hget : tr[j]? = some (s,act) := List.mk_mem_zipIdx_iff_getElem?.mp hx
  cases act with
  | enter q c =>
    change (if q = p then some c else none) = some c' at hc'
    split_ifs at hc' with hq
    cases hc'
    subst q
    exact ⟨s,hget⟩
  | _ => cases hc'

/-- Every task in a call is at a point of the call that it entered last. -/
structure CallInvariant (tr : List (System × Action)) (s : System) : Prop where
  serves : ∀ p, (s.pc p).inCall = true →
    ∃ i c, callOf p tr = some (i,c) ∧ (s.pc p).Serves s.owner (s.key p c) c

theorem callInvariant_initial : CallInvariant [] (initial sig) where
  serves p h := by cases h

/-- A task that stays there keeps its process. -/
lemma ThreadInvariant.tgid_kept (inv : ThreadInvariant s) (h : Stepped hash32 s act s')
    (present : s.pc p ≠ .absent) (alive : s.pc p ≠ .zombie) :
    s'.processes.tgid p = s.processes.tgid p := by
  obtain ⟨g,hg⟩ := inv.exists_group present
  have hg' := (inv.group_kept h present alive).trans hg
  rw [Processes.tgid_of_group hg,Processes.tgid_of_group hg']

lemma ThreadInvariant.key_kept (inv : ThreadInvariant s) (h : Stepped hash32 s act s')
    (present : s.pc p ≠ .absent) (alive : s.pc p ≠ .zombie) (c : Syscall) :
    s'.key p c = s.key p c := by
  cases c with
  | sendMessage dest len block => rfl
  | recieveMessage ptrs block => exact inv.tgid_kept h present alive
  | manageMailbox stop count => exact inv.tgid_kept h present alive

lemma inCall_present {c : Pc} (h : c.inCall = true) : c ≠ .absent ∧ c ≠ .zombie := by
  constructor <;> rintro rfl <;> cases h

/-- A task that goes on in its call. -/
lemma CallInvariant.goes_on (inv : CallInvariant tr s) (threads : ThreadInvariant s)
    (bounds : InBounds s) (h : Stepped hash32 s act s') {d : Pc}
    (busy : (s.pc p).inCall = true) (same : act.enters p = none) (next : s'.pc p = d)
    (serves : ∀ c, (s.pc p).Serves s'.owner (s.key p c) c → d.Serves s'.owner (s.key p c) c) :
    ∃ i c, callOf p (tr ++ [(s,act)]) = some (i,c) ∧ (s'.pc p).Serves s'.owner (s'.key p c) c := by
  obtain ⟨i,c,hcall,hserves⟩ := inv.serves p busy
  obtain ⟨hpresent,halive⟩ := inCall_present busy
  refine ⟨i,c,(callOf_kept tr s same).trans hcall,?_⟩
  rw [next,threads.key_kept h hpresent halive]
  apply serves
  apply hserves.congr
  intro m hm
  exact owner_stepped h (bounds.tasks p m hm)

theorem CallInvariant.stepped (inv : CallInvariant tr s) (hc : Consistent hash32 s)
    (threads : ThreadInvariant s) (bounds : InBounds s) (h : Stepped hash32 s act s') :
    CallInvariant (tr ++ [(s,act)]) s' where
  serves p busy := by
    have goes_on := fun {d : Pc} => inv.goes_on (p := p) (d := d) threads bounds h
    cases h.taskStep p with
    | rests moves pc =>
      exact goes_on (pc ▸ busy) (enters_of_rests moves) pc fun c hs => hs
    | arrives pc next | leaves pc next =>
      rw [next] at busy
      cases busy
    | enters action pc next =>
      subst act
      refine ⟨tr.length,_,callOf_entered tr s,?_⟩
      rw [next,threads.key_kept h (by rw [pc]; nofun) (by rw [pc]; nofun)]
      exact ⟨rfl,rfl⟩
    | ends pc next exits =>
      rw [next,inCall_of_exits exits] at busy
      cases busy
    | exiting pc next old new =>
      rw [next,inCall_of_exits new] at busy
      cases busy
    | invalid action pc next | outOfMemory action pc next | destroyed action pc messages next
    | removalFound action pc found next =>
      rw [next] at busy
      cases busy
    | valid action pc valid next =>
      subst act
      refine goes_on (by rw [pc]; rfl) rfl next fun c hs => ?_
      rw [pc] at hs
      exact hs
    | found action pc found next =>
      subst act
      refine goes_on (by rw [pc]; rfl) rfl next fun c hs => ?_
      rw [pc] at hs
      obtain ⟨rfl,hkey⟩ := hs
      obtain ⟨hlinked,howner⟩ := linked_of_get found
      refine ⟨?_,rfl⟩
      rw [owner_stepped h (hc.linked_lt _ hlinked),← hkey]
      exact howner
    | created action pc missing memory owner next =>
      subst act
      refine goes_on (by rw [pc]; rfl) rfl next fun c hs => ?_
      rw [pc] at hs
      obtain ⟨rfl,hkey⟩ := hs
      exact ⟨owner.trans hkey,rfl⟩
    | @stays o m cs k pr cs' action pc locked stays next =>
      subst act
      have hbusy : (Pc.onMailbox m cs k).inCall = true := by
        rw [next] at busy
        cases k <;> exact busy
      refine goes_on (by rw [pc]; exact hbusy) rfl next fun c hs => ?_
      rw [pc] at hs
      obtain ⟨howner,hserves⟩ := serves_onMailbox hbusy hs
      exact serves_stays locked.2 stays howner hserves
    | @returned o m cs k r action pc locked next =>
      subst act
      have hbusy : (Pc.onMailbox m cs k).inCall = true := by
        rw [next] at busy
        exact inCall_of_resume busy
      refine goes_on (by rw [pc]; exact hbusy) rfl next fun c hs => ?_
      rw [pc] at hs
      obtain ⟨howner,hserves⟩ := serves_onMailbox hbusy hs
      exact serves_resume r howner hserves
    | refused action pc exiting next =>
      subst act
      refine goes_on (by rw [pc]; rfl) rfl next fun c hs => ?_
      rw [pc] at hs
      exact ⟨hs.1,trivial⟩
    | granted action pc alive next =>
      subst act
      refine goes_on (by rw [pc]; rfl) rfl next fun c hs => ?_
      rw [pc] at hs
      obtain ⟨howner,rfl⟩ := hs
      exact serves_begin _ howner
    | messageCreated action pc made next =>
      subst act
      refine goes_on (by rw [pc]; rfl) rfl next fun c hs => ?_
      rw [pc] at hs
      obtain ⟨howner,dest,rfl⟩ := hs
      exact ⟨howner,dest,_,_,rfl,rfl⟩
    | messageFailed action pc failed next | countFault action pc fault next =>
      subst act
      refine goes_on (by rw [pc]; rfl) rfl next fun c hs => ?_
      rw [pc] at hs
      exact ⟨hs.1,trivial⟩
    | @countCopied o m stop count action pc writable next =>
      subst act
      refine goes_on (by rw [pc]; rfl) rfl next fun c hs => ?_
      rw [pc] at hs
      obtain ⟨howner,rfl⟩ := hs
      cases stop with
      | true => exact ⟨howner,count,rfl⟩
      | false => exact ⟨howner,trivial⟩
    | @copied o m x ptrs action pc writable next | @copyFault o m x ptrs action pc fault next =>
      subst act
      refine goes_on (by rw [pc]; rfl) rfl next fun c hs => ?_
      rw [pc] at hs
      obtain ⟨howner,block,rfl⟩ := hs
      exact ⟨howner,ptrs,block,rfl⟩

/-- What is always known of the calls and the tasks that make them. -/
theorem callInvariant_of_run (h : Run (step hash32) (initial sig) tr s) : CallInvariant tr s :=
  h.history_invariant callInvariant_initial fun _ _ _ _ prior inv taken =>
    inv.stepped (consistent_of_run prior) (threadInvariant_of_run prior) (inBounds_of_run prior)
      (step_stepped taken)

/-- A task that adds to the tail of a mailbox is in a send to the owner of the mailbox. -/
lemma CallInvariant.sending (inv : CallInvariant tr s) {m : ℕ} {cs : CallState MessagePtr}
    (pc : s.pc p = .onMailbox m cs .added) :
    ∃ i len block, callOf p tr = some (i,.sendMessage (s.owner m) len block) := by
  obtain ⟨i,c,hcall,hserves⟩ := inv.serves p (by rw [pc]; rfl)
  rw [pc] at hserves
  obtain ⟨howner,dest,len,block,rfl,-⟩ := hserves
  have hdest : s.owner m = dest := howner
  exact ⟨i,len,block,by rw [hcall,hdest]⟩

/-- A task that is in a receive works on the mailbox of its own process. -/
lemma CallInvariant.receiving (inv : CallInvariant tr s) {m : ℕ} {cs : CallState MessagePtr}
    {k : Cont} (pc : s.pc p = .onMailbox m cs k)
    (removes : (∃ ptrs, k = .removed ptrs) ∨ k = .putBack) :
    s.owner m = s.processes.tgid p := by
  have hbusy : (s.pc p).inCall = true := by
    rw [pc]
    rcases removes with ⟨ptrs,rfl⟩ | rfl <;> rfl
  obtain ⟨i,c,hcall,hserves⟩ := inv.serves p hbusy
  rw [pc] at hserves
  rcases removes with ⟨ptrs,rfl⟩ | rfl
  · obtain ⟨howner,block,rfl,-⟩ := hserves
    exact howner
  · obtain ⟨howner,ptrs,block,rfl⟩ := hserves
    exact howner

lemma callOf_lt {i : ℕ} (h : callOf p tr = some (i,c)) : i < tr.length := by
  obtain ⟨s,hs⟩ := callOf_entry h
  exact (List.getElem?_eq_some_iff.mp hs).1

/-- As long as its call is the same, a task does not enter another. -/
lemma not_enters_of_callOf {tr' : List (System × Action)} {i : ℕ}
    (h : callOf p (tr ++ tr') = some (i,c)) (early : i < tr.length) :
    ∀ x ∈ tr', x.2.enters p = none := by
  induction tr' using List.reverseRecOn with
  | nil =>
    intro x hx
    cases hx
  | append_singleton rest y ih =>
    obtain ⟨s,act⟩ := y
    rw [← List.append_assoc,callOf_snoc] at h
    cases he : act.enters p with
    | some c' =>
      rw [he] at h
      cases h
      rw [List.length_append] at early
      omega
    | none =>
      rw [he] at h
      intro x hx
      rcases List.mem_append.mp hx with hx | hx
      · exact ih h x hx
      · rw [List.mem_singleton.mp hx]
        exact he

/-- What a task cannot come back to without a new call. -/
def KeepsLeaving (hash32 : Pid → ℕ) (f : Pc → Bool) : Prop :=
  ∀ s act s' p, Stepped hash32 s act s' → act.enters p = none → f (s.pc p) = false →
    f (s'.pc p) = false

lemma KeepsLeaving.run {f : Pc → Bool} (keep : KeepsLeaving hash32 f)
    (h : Run (step hash32) s tr s') (calls : ∀ x ∈ tr, x.2.enters p = none)
    (now : f (s.pc p) = false) : f (s'.pc p) = false := by
  induction h with
  | refl => exact now
  | @snoc tr t act t' prior taken ih =>
    apply keep t act t' p (step_stepped taken)
    · exact calls (t,act) (by simp)
    · exact ih fun x hx => calls x (List.mem_append_left _ hx)

/-- Two calls of one entry are the same call of the same task. -/
lemma eq_of_callOf {before before' after after' : List (System × Action)} {q : Pid} {c' : Syscall}
    {i : ℕ} (call : callOf p before = some (i,c)) (call' : callOf q before' = some (i,c'))
    (h : before ++ after = before' ++ after') : p = q ∧ c = c' := by
  obtain ⟨t,ht⟩ := callOf_entry call
  obtain ⟨t',ht'⟩ := callOf_entry call'
  have hget : (before ++ after)[i]? = some (t,.enter p c) := by
    rw [List.getElem?_append_left (callOf_lt call),ht]
  rw [h,List.getElem?_append_left (callOf_lt call'),ht'] at hget
  cases hget
  exact ⟨rfl,rfl⟩

/-- A task that has left some points for good in its call does not come to them again in it. -/
lemma KeepsLeaving.not_later {f : Pc → Bool} (keep : KeepsLeaving hash32 f)
    {before mid : List (System × Action)} {t t' s₀ : System} {act : Action} {c' : Syscall} {i : ℕ}
    (h : Run (step hash32) s₀ (before ++ (t,act) :: mid) t')
    (call : callOf p before = some (i,c))
    (call' : callOf p (before ++ (t,act) :: mid) = some (i,c'))
    (leaves : ∀ u, step hash32 t act = some u → f (u.pc p) = false) : f (t'.pc p) = false := by
  obtain ⟨u,-,htaken,hmid⟩ := h.split_at
  refine keep.run hmid ?_ (leaves u htaken)
  intro x hx
  exact not_enters_of_callOf call' (callOf_lt call) x (List.mem_cons_of_mem _ hx)

/-- A point that a task leaves for good it passes once in a call. -/
theorem KeepsLeaving.once {f : Pc → Bool} (keep : KeepsLeaving hash32 f) {s₀ : System}
    (h : Run (step hash32) s₀ tr s) {before before' after after' : List (System × Action)}
    {t t' : System} {q : Pid} {act act' : Action} {c' : Syscall} {i : ℕ}
    (here : tr = before ++ (t,act) :: after) (at' : tr = before' ++ (t',act') :: after')
    (call : callOf p before = some (i,c)) (call' : callOf q before' = some (i,c'))
    (now : f (t.pc p) = true) (now' : f (t'.pc q) = true)
    (leaves : ∀ u, step hash32 t act = some u → f (u.pc p) = false)
    (leaves' : ∀ u, step hash32 t' act' = some u → f (u.pc q) = false) :
    before = before' ∧ t = t' ∧ act = act' ∧ p = q := by
  obtain ⟨rfl,-⟩ := eq_of_callOf call call' (here.symm.trans at')
  rcases split_cases (here.symm.trans at') with ⟨hb,hx⟩ | ⟨mid,rfl⟩ | ⟨mid,rfl⟩
  · cases hx
    exact ⟨hb,rfl,rfl,rfl⟩
  · obtain ⟨u,hrun,-,-⟩ := (at' ▸ h).split_at
    rw [keep.not_later hrun call call' leaves] at now'
    cases now'
  · obtain ⟨u,hrun,-,-⟩ := (here ▸ h).split_at
    rw [keep.not_later hrun call' call leaves'] at now
    cases now

end System
end ProcessMessagePassing
