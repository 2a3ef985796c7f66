import ProcessMessagePassing.Kernel.Leak

/-! What a call does between its entry and its return, with all other threads running in between.
What is left to do of a call at each of its points completes one of the courses listed for it. -/
namespace ProcessMessagePassing
open Concurrency HashTable

/-- What a call does to a mailbox or to a message. -/
inductive Effect
  | create (m : ℕ)
  | claim (m : ℕ)
  | unclaim (m : ℕ)
  | make (x : MessagePtr)
  | push (m : ℕ) (x : MessagePtr) (head : Bool)
  | pop (m : ℕ) (x : MessagePtr)
  | stop (m : ℕ) (status : ℕ)
  | destroy (x : MessagePtr)
  deriving DecidableEq, Repr

/-- What a section of the mailbox has done when it ends like this. -/
def Progress.effect (m : ℕ) (cs : CallState MessagePtr) : Progress MessagePtr → Option Effect
  | .returned (.message e) => some (.pop m (.ofEntry m e))
  | .returned (.code .ok) =>
    match cs with
    | .claim => some (.claim m)
    | .unclaim => some (.unclaim m)
    | .stop status => some (.stop m status)
    | .addMessage x _ head => some (.push m x head)
    | .addWaiting x head => some (.push m x head)
    | _ => none
  | _ => none

/-- The mailbox was found or made, and claimed. -/
def Got (mine : ℕ → Prop) (m : ℕ) (es : List Effect) : Prop :=
  mine m ∧ (es = [.claim m] ∨ es = [.create m,.claim m])

/-- The message reads as it is in the cache, if it is an object of the cache. -/
def MessageCache.Reads (h : MessageCache) (x : MessagePtr) (message : Message) : Prop :=
  ∀ n, x = .object n → n < h.created ∧ message = h.object n

/-- The courses of the calls about a process, whose mailboxes are `mine`: the code that a call returns,
all that it has done, in order, and what it has written to user space. -/
inductive Contract (mine : ℕ → Prop) (h : MessageCache) :
    Syscall → Code → List Effect → List UserWrite → Prop
  | invalid {c} : Contract mine h c .mailboxInvalid [] []
  | noMemory {c} : Contract mine h c .mailboxError [] []
  | exiting {c m} (found : mine m) : Contract mine h c .mailboxInvalid [.claim m,.unclaim m] []
  | badLength {dest len block m es} (got : Got mine m es) (length : maxMsgSize < len ∨ len < 0) :
      Contract mine h (.sendMessage dest len block) .msgLengthError (es ++ [.unclaim m]) []
  | notMade {dest len block m es code} (got : Got mine m es) (length : 0 ≤ len ∧ len ≤ maxMsgSize)
      (failed : code = .mailboxError ∨ code = .msgArgError) :
      Contract mine h (.sendMessage dest len block) code (es ++ [.unclaim m]) []
  | notAdded {dest len block m es x code} (got : Got mine m es)
      (length : 0 ≤ len ∧ len ≤ maxMsgSize)
      (refused : code = .mailboxStopped ∨ code = .mailboxFull ∧ block = false ∨
        code = .mailboxError ∧ block = true) :
      Contract mine h (.sendMessage dest len block) code (es ++ [.make x,.unclaim m]) []
  | sent {dest len block m es x} (got : Got mine m es) (length : 0 ≤ len ∧ len ≤ maxMsgSize) :
      Contract mine h (.sendMessage dest len block) .ok
        (es ++ [.make x,.push m x false,.unclaim m]) []
  | notTaken {ptrs block m es code} (got : Got mine m es)
      (refused : code = .mailboxStopped ∨ code = .mailboxEmpty ∧ block = false ∨
        code = .mailboxError ∧ block = true) :
      Contract mine h (.recieveMessage ptrs block) code (es ++ [.unclaim m]) []
  | recieved {ptrs block m es x message} (got : Got mine m es) (reads : h.Reads x message)
      (good : ptrs.writable message = true) :
      Contract mine h (.recieveMessage ptrs block) .ok
        (es ++ [.pop m x,.unclaim m,.destroy x]) (copyMessage ptrs message)
  | putBack {ptrs block m es x message} (got : Got mine m es) (reads : h.Reads x message)
      (bad : ptrs.writable message = false) :
      Contract mine h (.recieveMessage ptrs block) .msgArgError
        (es ++ [.pop m x,.push m x true,.unclaim m]) (copyMessage ptrs message)
  | lost {ptrs block m es x message} (got : Got mine m es) (reads : h.Reads x message)
      (bad : ptrs.writable message = false) :
      Contract mine h (.recieveMessage ptrs block) .msgArgError
        (es ++ [.pop m x,.unclaim m]) (copyMessage ptrs message)
  | notCounted {stop count m es} (got : Got mine m es) (bad : count < sizeofInt) :
      Contract mine h (.manageMailbox stop count) .msgArgError (es ++ [.unclaim m]) []
  | counted {count m es n} (got : Got mine m es) (good : sizeofInt ≤ count) :
      Contract mine h (.manageMailbox false count) .ok (es ++ [.unclaim m]) [.count n]
  | stopped {count m es n} (got : Got mine m es) (good : sizeofInt ≤ count) :
      Contract mine h (.manageMailbox true count) .ok
        (es ++ [.stop m stoppedFlag,.unclaim m]) [.count n]

section
variable (mine : ℕ → Prop) (h : MessageCache) (c : Syscall) (es : List Effect) (w : List UserWrite)

/-- What a call inside a mailbox function has done and written so far. -/
def Cont.Sofar (m : ℕ) (cs : CallState MessagePtr) : Cont → Prop
  | .claimed fresh _ => mine m ∧ es = (if fresh then [.create m] else []) ∧ w = []
  | .refused => Contract mine h c .mailboxInvalid (es ++ [.unclaim m]) w
  | .added => ∃ dest len block x got, c = .sendMessage dest len block ∧ cs.Blocks block ∧
      cs.adding = some (x,false) ∧ Got mine m got ∧ es = got ++ [.make x] ∧
      (0 ≤ len ∧ len ≤ maxMsgSize) ∧ w = []
  | .removed ptrs => ∃ block, c = .recieveMessage ptrs block ∧ cs.Blocks block ∧ Got mine m es ∧ w = []
  | .putBack => ∃ ptrs block x got message, c = .recieveMessage ptrs block ∧
      cs.adding = some (x,true) ∧ Got mine m got ∧ es = got ++ [.pop m x] ∧ h.Reads x message ∧
      ptrs.writable message = false ∧ w = copyMessage ptrs message
  | .stopped => ∃ count n, c = .manageMailbox true count ∧ sizeofInt ≤ count ∧ Got mine m es ∧
      w = [.count n]
  | .unclaimed code => Contract mine h c code (es ++ [.unclaim m]) w
  | .delivered x => Contract mine h c .ok (es ++ [.unclaim m,.destroy x]) w
  | .hook _ => True

/-- The same at any point of a call. -/
def Pc.Sofar : Pc → Prop
  | .validate _ c' => c' = c ∧ es = [] ∧ w = []
  | .lookup _ c' => c' = c ∧ es = [] ∧ w = []
  | .onMailbox m cs k => k.Sofar mine h c es w m cs
  | .checkExiting m c' => c' = c ∧ mine m ∧ es = [.claim m] ∧ w = []
  | .createMessage m len block => (∃ dest, c = .sendMessage dest len block) ∧ Got mine m es ∧ w = []
  | .copyCount m stop count => c = .manageMailbox stop count ∧ Got mine m es ∧ w = []
  | .copyToUser m x ptrs => ∃ block got, c = .recieveMessage ptrs block ∧ Got mine m got ∧
      es = got ++ [.pop m x] ∧ w = []
  | .destroyMessage x => Contract mine h c .ok (es ++ [.destroy x]) w
  | .user (some code) => Contract mine h c code es w
  | _ => True

/-- The task is in a call or back from one. -/
def Pc.calls : Pc → Bool
  | .user (some _) => true
  | pc => pc.inCall

end

namespace MessageCache
variable {h h' : MessageCache}

lemma Reads.mono {x : MessagePtr} {message : Message} (reads : h.Reads x message)
    (hh : h.Extends h') : h'.Reads x message := by
  intro n hn
  obtain ⟨hlt,hmessage⟩ := reads n hn
  exact ⟨Nat.lt_of_lt_of_le hlt hh.created,hmessage.trans (hh.object n hlt).symm⟩

/-- Only a length out of range is reported as one. -/
lemma create_code {sender : Pid} {len : ℤ} {o : Oracle} {code : Code}
    (made : h.create sender len o = (h',.error code)) :
    code = .msgLengthError ∧ (maxMsgSize < len ∨ len < 0) ∨
      (0 ≤ len ∧ len ≤ maxMsgSize) ∧ (code = .mailboxError ∨ code = .msgArgError) := by
  unfold create at made
  dsimp only at made
  split_ifs at made with hlen halloc hbuffer <;>
    simp only [Prod.mk.injEq,Except.error.injEq,reduceCtorEq,and_false] at made
  · exact .inl ⟨made.2.symm,hlen⟩
  · exact .inr ⟨by omega,.inl made.2.symm⟩
  · exact .inr ⟨by omega,.inr made.2.symm⟩

end MessageCache

namespace Mailbox
variable {a : Actor} {sig : Bool} {m m' : Mailbox Actor MessagePtr} {cs : CallState MessagePtr}
  {block : Bool} {code : Code}

/-- An add that fails was refused by a stop, or it was not to wait, or it was interrupted. -/
lemma Locked.add_code (h : Locked a sig m cs m' (.returned (.code code))) {y : MessagePtr × Bool}
    (adding : cs.adding = some y) (blocks : cs.Blocks block) :
    code = .ok ∨ code = .mailboxStopped ∨ code = .mailboxFull ∧ block = false ∨
      code = .mailboxError ∧ block = true := by
  cases h with
  | addStopped | addWokenStopped => exact .inr (.inl rfl)
  | addFull => exact .inr (.inr (.inl ⟨rfl,blocks.symm⟩))
  | addNow | addWoken => exact .inl rfl
  | addSignalled => exact .inr (.inr (.inr ⟨rfl,blocks.symm⟩))
  | addInterrupted => exact .inr (.inr (.inr ⟨rfl,blocks⟩))
  | _ => cases adding

lemma Locked.remove_code (h : Locked a sig m cs m' (.returned (.code code)))
    (removes : cs.Removes) (blocks : cs.Blocks block) :
    code = .mailboxStopped ∨ code = .mailboxEmpty ∧ block = false ∨
      code = .mailboxError ∧ block = true := by
  rcases removes with ⟨b,rfl⟩ | rfl
  · cases h with
    | removeStopped => exact .inl rfl
    | removeEmpty => exact .inr (.inl ⟨rfl,blocks.symm⟩)
    | removeSignalled => exact .inr (.inr ⟨rfl,blocks.symm⟩)
  · cases h with
    | removeWokenStopped => exact .inl rfl
    | removeInterrupted => exact .inr (.inr ⟨rfl,blocks⟩)

end Mailbox

section
variable {mine mine' : ℕ → Prop} {c : Syscall} {h h' : MessageCache} {es : List Effect}
  {w : List UserWrite} {code : Code} {m : ℕ}

lemma Got.mono (got : Got mine m es) (grow : ∀ m, mine m → mine' m) : Got mine' m es :=
  ⟨grow m got.1,got.2⟩

/-- A message keeps its contents, and a mailbox its owner. -/
lemma Contract.mono (contract : Contract mine h c code es w) (grow : ∀ m, mine m → mine' m)
    (hh : h.Extends h') : Contract mine' h' c code es w := by
  cases contract with
  | invalid => exact .invalid
  | noMemory => exact .noMemory
  | exiting found => exact .exiting (grow _ found)
  | badLength got length => exact .badLength (got.mono grow) length
  | notMade got length failed => exact .notMade (got.mono grow) length failed
  | notAdded got length refused => exact .notAdded (got.mono grow) length refused
  | sent got length => exact .sent (got.mono grow) length
  | notTaken got refused => exact .notTaken (got.mono grow) refused
  | recieved got reads good => exact .recieved (got.mono grow) (reads.mono hh) good
  | putBack got reads bad => exact .putBack (got.mono grow) (reads.mono hh) bad
  | lost got reads bad => exact .lost (got.mono grow) (reads.mono hh) bad
  | notCounted got bad => exact .notCounted (got.mono grow) bad
  | counted got good => exact .counted (got.mono grow) good
  | stopped got good => exact .stopped (got.mono grow) good

lemma Pc.Sofar.mono {pc : Pc} (sofar : pc.Sofar mine h c es w) (grow : ∀ m, mine m → mine' m)
    (hh : h.Extends h') : pc.Sofar mine' h' c es w := by
  cases pc with
  | onMailbox m cs k =>
    cases k with
    | claimed fresh c' => exact ⟨grow m sofar.1,sofar.2⟩
    | refused | unclaimed code | delivered x =>
      have hcontract : Contract mine h c _ _ w := sofar
      exact hcontract.mono grow hh
    | added =>
      obtain ⟨dest,len,block,x,got,hc,hblocks,hadding,hgot,hrest⟩ := sofar
      exact ⟨dest,len,block,x,got,hc,hblocks,hadding,hgot.mono grow,hrest⟩
    | removed ptrs =>
      obtain ⟨block,hc,hblocks,hgot,hw⟩ := sofar
      exact ⟨block,hc,hblocks,hgot.mono grow,hw⟩
    | putBack =>
      obtain ⟨ptrs,block,x,got,message,hc,hadding,hgot,hes,hreads,hrest⟩ := sofar
      exact ⟨ptrs,block,x,got,message,hc,hadding,hgot.mono grow,hes,hreads.mono hh,hrest⟩
    | stopped =>
      obtain ⟨count,n,hc,hcount,hgot,hw⟩ := sofar
      exact ⟨count,n,hc,hcount,hgot.mono grow,hw⟩
    | hook group => trivial
  | checkExiting m c' => exact ⟨sofar.1,grow m sofar.2.1,sofar.2.2⟩
  | createMessage m len block => exact ⟨sofar.1,sofar.2.1.mono grow,sofar.2.2⟩
  | copyCount m stop count => exact ⟨sofar.1,sofar.2.1.mono grow,sofar.2.2⟩
  | copyToUser m x ptrs =>
    obtain ⟨block,got,hc,hgot,hrest⟩ := sofar
    exact ⟨block,got,hc,hgot.mono grow,hrest⟩
  | destroyMessage x =>
    have hcontract : Contract mine h c .ok _ w := sofar
    exact hcontract.mono grow hh
  | user last =>
    cases last with
    | none => trivial
    | some code =>
      have hcontract : Contract mine h c code es w := sofar
      exact hcontract.mono grow hh
  | _ => exact sofar

/-- A call that has got its mailbox goes on with it. -/
lemma sofar_begin (got : Got mine m es) : (c.begin m).Sofar mine h c es [] := by
  cases c with
  | sendMessage dest len block => exact ⟨⟨dest,rfl⟩,got,rfl⟩
  | recieveMessage ptrs block => exact ⟨block,rfl,rfl,got,rfl⟩
  | manageMailbox stop count => exact ⟨rfl,got,rfl⟩

/-- A call that stays in its mailbox function has done nothing. -/
lemma sofar_stays {k : Cont} {cs cs' : CallState MessagePtr} {a : Actor} {sig : Bool}
    {mb mb' : Mailbox Actor MessagePtr} {pr : Progress MessagePtr}
    (sofar : k.Sofar mine h c es w m cs) (locked : Mailbox.Locked a sig mb cs mb' pr)
    (stays : pr.callState = some cs') : k.Sofar mine h c es w m cs' := by
  cases k with
  | added =>
    obtain ⟨dest,len,block,x,got,hc,hblocks,hadding,hrest⟩ := sofar
    exact ⟨dest,len,block,x,got,hc,locked.stays_blocks hblocks stays,
      locked.stays_adding hadding stays,hrest⟩
  | removed ptrs =>
    obtain ⟨block,hc,hblocks,hrest⟩ := sofar
    exact ⟨block,hc,locked.stays_blocks hblocks stays,hrest⟩
  | putBack =>
    obtain ⟨ptrs,block,x,got,message,hc,hadding,hrest⟩ := sofar
    exact ⟨ptrs,block,x,got,message,hc,locked.stays_adding hadding stays,hrest⟩
  | _ => exact sofar

/-- A call that comes back from a mailbox function has done what the section did. -/
lemma sofar_resume {k : Cont} {cs : CallState MessagePtr} {a : Actor} {sig : Bool}
    {mb mb' : Mailbox Actor MessagePtr} {r : Ret MessagePtr}
    (sofar : k.Sofar mine h c es w m cs) (fits : k.Fits cs)
    (serves : k.Serves cs c) (locked : Mailbox.Locked a sig mb cs mb' (.returned r)) :
    (k.resume m r).Sofar mine h c (es ++ ((Progress.returned r).effect m cs).toList) w := by
  cases k with
  | claimed fresh c' =>
    obtain rfl : cs = .claim := fits
    obtain rfl := locked.once_ok (.inl rfl)
    obtain rfl : c' = c := serves
    obtain ⟨hmine,rfl,rfl⟩ := sofar
    cases fresh with
    | true => exact sofar_begin ⟨hmine,.inr rfl⟩
    | false => exact ⟨rfl,hmine,rfl,rfl⟩
  | refused | unclaimed code =>
    obtain rfl : cs = .unclaim := fits
    obtain rfl := locked.once_ok (.inr (.inl rfl))
    exact sofar
  | added =>
    obtain ⟨dest,len,block,x,got,rfl,hblocks,hadding,hgot,rfl,hlen,rfl⟩ := sofar
    rcases locked.added hadding with ⟨rfl,-⟩ | ⟨code,hcode,rfl,-⟩
    · have heffect : (Progress.returned (.code .ok)).effect m cs = some (.push m x false) := by
        cases cs <;> cases hadding <;> rfl
      rw [heffect]
      change Contract mine h _ .ok _ _
      simpa using Contract.sent (h := h) (x := x) hgot hlen
    · have hrefused := (locked.add_code hadding hblocks).resolve_left hcode
      have heffect : (Progress.returned (.code code)).effect m cs = none := by
        cases code <;> first | rfl | exact absurd rfl hcode
      rw [heffect]
      change Contract mine h _ code _ _
      simpa using Contract.notAdded (h := h) (x := x) hgot hlen hrefused
  | removed ptrs =>
    obtain ⟨block,rfl,hblocks,hgot,rfl⟩ := sofar
    cases r with
    | message e => exact ⟨block,es,rfl,hgot,rfl,rfl⟩
    | code code =>
      have hrefused := locked.remove_code fits hblocks
      have heffect : (Progress.returned (.code code)).effect m cs = none := by
        cases code <;> first | rfl | simp at hrefused
      rw [heffect]
      change Contract mine h _ code _ _
      simpa using Contract.notTaken (h := h) hgot hrefused
  | putBack =>
    obtain ⟨ptrs,block,x,got,message,rfl,hadding,hgot,rfl,hreads,hbad,rfl⟩ := sofar
    rcases locked.added hadding with ⟨rfl,-⟩ | ⟨code,hcode,rfl,-⟩
    · have heffect : (Progress.returned (.code .ok)).effect m cs = some (.push m x true) := by
        cases cs <;> cases hadding <;> rfl
      rw [heffect]
      change Contract mine h _ .msgArgError _ _
      simpa using @Contract.putBack mine h ptrs block m _ x message hgot hreads hbad
    · have heffect : (Progress.returned (.code code)).effect m cs = none := by
        cases code <;> first | rfl | exact absurd rfl hcode
      rw [heffect]
      change Contract mine h _ .msgArgError _ _
      simpa using @Contract.lost mine h ptrs block m _ x message hgot hreads hbad
  | stopped =>
    obtain ⟨count,n,rfl,hcount,hgot,rfl⟩ := sofar
    obtain rfl : cs = .stop stoppedFlag := fits
    obtain rfl := locked.once_ok (.inr (.inr ⟨_,rfl⟩))
    change Contract mine h _ .ok _ _
    simpa [Progress.effect] using Contract.stopped (h := h) (n := n) hgot hcount
  | delivered x =>
    obtain rfl : cs = .unclaim := fits
    obtain rfl := locked.once_ok (.inr (.inl rfl))
    change Contract mine h c .ok _ w
    have hcontract : Contract mine h c .ok (es ++ [.unclaim m,.destroy x]) w := sofar
    simpa [Progress.effect] using hcontract
  | hook group => trivial

end

namespace System
variable {hash32 : Pid → ℕ} {sig : Actor → Bool} {s s' : System} {act : Action}
  {tr : List (System × Action)} {p : Pid} {c : Syscall} {i m : ℕ}

/-- What the step of the task does to a mailbox or to a message. -/
def effect (hash32 : Pid → ℕ) (p : Pid) (s : System) : Action → Option Effect
  | .run q o =>
    if q = p then
      match s.pc p with
      | .lookup pid _ =>
        if s.get hash32 pid = none ∧ o.alloc = true then some (.create s.mailboxesCreated) else none
      | .onMailbox m cs _ =>
        (Mailbox.criticalSection (.task p) (s.signalPending (.task p)) (s.mailboxes m) cs).2.effect m cs
      | .createMessage _ len _ =>
        match (s.messages.create (s.processes.tgid p) len o).2 with
        | .ok n => some (.make (.object n))
        | .error _ => none
      | .destroyMessage x => some (.destroy x)
      | _ => none
    else none
  | _ => none

/-- What the task has done in the course of these steps. -/
def effects (hash32 : Pid → ℕ) (p : Pid) (tr : List (System × Action)) : List Effect :=
  tr.filterMap fun x => x.1.effect hash32 p x.2

/-- The mailbox has been created for the process. -/
def Mine (s : System) (key : Pid) (m : ℕ) : Prop := m < s.mailboxesCreated ∧ s.owner m = key

lemma effects_snoc (early : i ≤ tr.length) : effects hash32 p ((tr ++ [(s,act)]).drop i) =
    effects hash32 p (tr.drop i) ++ (s.effect hash32 p act).toList := by
  rw [List.drop_append_of_le_length early,effects,List.filterMap_append]
  rcases h : s.effect hash32 p act with _ | e <;> simp [effects,h]

lemma effect_of_rests (h : act.moves ≠ some p) : s.effect hash32 p act = none := by
  cases act with
  | run q o =>
    refine if_neg ?_
    rintro rfl
    exact h rfl
  | _ => rfl

/-- The step of a task that is at none of the points where something is done. -/
lemma effect_of_idle {o : Oracle} {c : Pc} (pc : s.pc p = c) (idle : c.call = none)
    (lookup : ∀ pid c', c ≠ .lookup pid c') (create : ∀ m len block, c ≠ .createMessage m len block)
    (destroy : ∀ x, c ≠ .destroyMessage x) : s.effect hash32 p (.run p o) = none := by
  simp only [effect,if_true,pc]
  cases c with
  | lookup pid c' => exact absurd rfl (lookup pid c')
  | createMessage m len block => exact absurd rfl (create m len block)
  | destroyMessage x => exact absurd rfl (destroy x)
  | onMailbox m cs k => cases idle
  | _ => rfl

lemma effect_section {o : Oracle} {cs : CallState MessagePtr} {k : Cont}
    {m' : Mailbox Actor MessagePtr} {pr : Progress MessagePtr} (pc : s.pc p = .onMailbox m cs k)
    (locked : s.Section (.task p) m cs m' pr) :
    s.effect hash32 p (.run p o) = pr.effect m cs := by
  simp only [effect,if_true,pc,locked.result]

/-- A section in which a call stays does nothing. -/
lemma effect_stays {cs cs' : CallState MessagePtr} {pr : Progress MessagePtr}
    (stays : pr.callState = some cs') : pr.effect m cs = none := by
  cases pr with
  | returned r => cases stays
  | _ => rfl

/-- Every task that is in a call, or back from it, is at a point of one of its courses. -/
def ContractInvariant (hash32 : Pid → ℕ) (tr : List (System × Action)) (s : System) : Prop :=
  ∀ p, (s.pc p).calls = true → ∃ i c, callOf p tr = some (i,c) ∧
    (s.pc p).Sofar (s.Mine (s.key p c)) s.messages c (effects hash32 p (tr.drop i)) (s.written p)

lemma mine_stepped (h : Stepped hash32 s act s') {key : Pid} {m : ℕ} (mine : s.Mine key m) :
    s'.Mine key m := by
  refine ⟨?_,(owner_stepped h mine.1).trans mine.2⟩
  rcases mailboxesCreated_stepped h with he | ⟨he,-⟩
  · rw [he]
    exact mine.1
  · rw [he]
    exact Nat.lt_succ_of_lt mine.1

lemma calls_present {pc : Pc} (h : pc.calls = true) : pc ≠ .absent ∧ pc ≠ .zombie := by
  constructor <;> rintro rfl <;> cases h

lemma calls_of_inCall {pc : Pc} (h : pc.inCall = true) : pc.calls = true := by
  cases pc with
  | user last => cases h
  | _ => exact h

lemma calls_of_exits {pc : Pc} (h : pc.exits = true) : pc.calls = false := by
  have hnot := inCall_of_exits h
  cases pc with
  | user last => cases h
  | _ => exact hnot

/-- A task that goes on in its call. -/
lemma ContractInvariant.goes_on (inv : ContractInvariant hash32 tr s) (calls : CallInvariant tr s)
    (threads : ThreadInvariant s) (h : Stepped hash32 s act s') {d : Pc}
    (busy : (s.pc p).inCall = true) (same : act.enters p = none) (next : s'.pc p = d)
    (course : ∀ c es, (s.pc p).Serves s.owner (s.key p c) c →
      (s.pc p).Sofar (s'.Mine (s.key p c)) s'.messages c es (s.written p) →
      d.Sofar (s'.Mine (s.key p c)) s'.messages c (es ++ (s.effect hash32 p act).toList)
        (s'.written p)) :
    ∃ i c, callOf p (tr ++ [(s,act)]) = some (i,c) ∧
      (s'.pc p).Sofar (s'.Mine (s'.key p c)) s'.messages c
        (effects hash32 p ((tr ++ [(s,act)]).drop i)) (s'.written p) := by
  obtain ⟨i,c,hcall,hsofar⟩ := inv p (calls_of_inCall busy)
  obtain ⟨i',c',hcall',hserves⟩ := calls.serves p busy
  rw [hcall] at hcall'
  cases hcall'
  obtain ⟨hpresent,halive⟩ := inCall_present busy
  refine ⟨i,c,(callOf_kept tr s same).trans hcall,?_⟩
  rw [next,threads.key_kept h hpresent halive,effects_snoc (Nat.le_of_lt (callOf_lt hcall))]
  exact course c _ hserves (hsofar.mono (fun _ hm => mine_stepped h hm) h.extends)

/-- A lookup that sends the task back to user mode makes no mailbox. -/
lemma effect_outOfMemory {o : Oracle} {pid : Pid} {last : Option Code}
    (h : Stepped hash32 s (.run p o) s') (pc : s.pc p = .lookup pid c)
    (next : s'.pc p = .user last) : s.effect hash32 p (.run p o) = none := by
  cases h with
  | outOfMemory pc' unlocked missing full => simp [effect,pc',full]
  | found pc' unlocked found => simp [effect,pc',found]
  | created pc' =>
    have hpc := (setPc_self _ _ _).symm.trans next
    cases hpc
  | valid pc' | invalid pc' | stays pc' | returned pc' | refused pc' | granted pc'
  | messageCreated pc' | messageFailed pc' | countFault pc' | countCopied pc' | copied pc'
  | copyFault pc' | destroyed pc' | lastThread pc' | otherThread pc' | removalFound pc'
  | removalMissing pc' | deletionStarted pc' | deletionFailed pc' | realExit pc' | decrementLive pc'
  | die pc' =>
    rw [pc] at pc'
    cases pc'

/-- The message that a receive copies is one of the cache. -/
lemma reads_copied {x : MessagePtr} {ptrs : RecievePtrs}
    (known : ∀ p n, s.holding p = some (.object n) → n < s.messages.created)
    (pc : s.pc p = .copyToUser m x ptrs) (o : Oracle) :
    s.messages.Reads x (s.messages.read o x) := by
  rintro n rfl
  exact ⟨known p n (congrArg Pc.holding pc),rfl⟩

theorem ContractInvariant.stepped (inv : ContractInvariant hash32 tr s) (calls : CallInvariant tr s)
    (hc : Consistent hash32 s) (threads : ThreadInvariant s)
    (bounds : InBounds s') (known : ∀ p n, s.holding p = some (.object n) → n < s.messages.created)
    (h : Stepped hash32 s act s') : ContractInvariant hash32 (tr ++ [(s,act)]) s' := by
  intro p busy
  have goes_on := fun {d : Pc} => inv.goes_on (p := p) (d := d) calls threads h
  have hfits := hc.fits p
  cases h.taskStep p with
  | rests moves pc written =>
    rw [pc] at busy
    obtain ⟨i,c,hcall,hsofar⟩ := inv p busy
    obtain ⟨hpresent,halive⟩ := calls_present busy
    refine ⟨i,c,(callOf_kept tr s (enters_of_rests moves)).trans hcall,?_⟩
    rw [pc,written,threads.key_kept h hpresent halive,effects_snoc (Nat.le_of_lt (callOf_lt hcall)),
      effect_of_rests moves,Option.toList_none,List.append_nil]
    exact hsofar.mono (fun _ hm => mine_stepped h hm) h.extends
  | arrives pc next | leaves pc next =>
    rw [next] at busy
    cases busy
  | removalFound action pc found next =>
    rw [next] at busy
    cases busy
  | ends pc next exits =>
    rw [next,calls_of_exits exits] at busy
    cases busy
  | exiting pc next old new =>
    rw [next,calls_of_exits new] at busy
    cases busy
  | @enters c last action pc next written =>
    subst act
    refine ⟨tr.length,c,callOf_entered tr s,?_⟩
    rw [next,written,List.drop_left]
    exact ⟨rfl,rfl,rfl⟩
  | valid action pc valid next written =>
    subst act
    refine goes_on (by rw [pc]; rfl) rfl next fun c es _ sofar => ?_
    rw [effect_of_idle pc rfl nofun nofun nofun,written,Option.toList_none,List.append_nil]
    rw [pc] at sofar
    exact sofar
  | invalid action pc next written =>
    subst act
    refine goes_on (by rw [pc]; rfl) rfl next fun c es _ sofar => ?_
    rw [effect_of_idle pc rfl nofun nofun nofun,written]
    rw [pc] at sofar
    obtain ⟨-,rfl,hw⟩ := sofar
    rw [hw]
    exact .invalid
  | @found o pid c m action pc found next written =>
    subst act
    refine goes_on (by rw [pc]; rfl) rfl next fun c' es serves sofar => ?_
    rw [pc] at serves sofar
    obtain ⟨-,rfl,hw⟩ := sofar
    obtain ⟨hlinked,howner⟩ := linked_of_get found
    have hmine : s.Mine (s.key p c') m := ⟨hc.linked_lt m hlinked,howner.trans serves.2⟩
    have heffect : s.effect hash32 p (.run p o) = none := by
      simp [effect,pc,found]
    rw [heffect,written]
    exact ⟨mine_stepped h hmine,rfl,hw⟩
  | @created o pid c action pc missing memory owner next written =>
    subst act
    refine goes_on (by rw [pc]; rfl) rfl next fun c' es serves sofar => ?_
    rw [pc] at serves sofar
    obtain ⟨-,rfl,hw⟩ := sofar
    have heffect : s.effect hash32 p (.run p o) = some (.create s.mailboxesCreated) := by
      simp [effect,pc,missing,memory]
    have hcreated : s.mailboxesCreated < s'.mailboxesCreated := by
      apply bounds.tasks p
      rw [next]
      rfl
    rw [heffect,written]
    exact ⟨⟨hcreated,owner.trans serves.2⟩,rfl,hw⟩
  | @outOfMemory o pid c action pc next written =>
    subst act
    refine goes_on (by rw [pc]; rfl) rfl next fun c' es serves sofar => ?_
    rw [pc] at sofar
    obtain ⟨-,rfl,hw⟩ := sofar
    rw [effect_outOfMemory h pc next,written,hw]
    exact .noMemory
  | @stays o m cs k pr cs' action pc locked stays next written =>
    subst act
    have hbusy : (Pc.onMailbox m cs k).inCall = true := by
      rw [next] at busy
      cases k <;> exact busy
    refine goes_on (by rw [pc]; exact hbusy) rfl next fun c' es serves sofar => ?_
    rw [pc] at sofar
    rw [effect_section pc locked,effect_stays stays,Option.toList_none,List.append_nil,written]
    exact sofar_stays sofar locked.2 stays
  | @returned o m cs k r action pc locked next written =>
    subst act
    have hbusy : (Pc.onMailbox m cs k).inCall = true := by
      cases k with
      | hook group =>
        rw [next] at busy
        cases busy
      | _ => rfl
    refine goes_on (by rw [pc]; exact hbusy) rfl next fun c' es serves sofar => ?_
    rw [pc] at sofar serves hfits
    rw [effect_section pc locked,written]
    exact sofar_resume sofar hfits (serves_onMailbox hbusy serves).2 locked.2
  | refused action pc exiting next written =>
    subst act
    refine goes_on (by rw [pc]; rfl) rfl next fun c' es serves sofar => ?_
    rw [effect_of_idle pc rfl nofun nofun nofun,written]
    rw [pc] at sofar
    obtain ⟨-,hmine,rfl,hw⟩ := sofar
    rw [hw]
    exact Contract.exiting hmine
  | granted action pc alive next written =>
    subst act
    refine goes_on (by rw [pc]; rfl) rfl next fun c' es serves sofar => ?_
    rw [effect_of_idle pc rfl nofun nofun nofun,written]
    rw [pc] at sofar
    obtain ⟨rfl,hmine,rfl,hw⟩ := sofar
    rw [hw]
    exact sofar_begin ⟨hmine,.inl rfl⟩
  | @messageCreated o m len block x action pc made next written =>
    subst act
    refine goes_on (by rw [pc]; rfl) rfl next fun c' es serves sofar => ?_
    have heffect : s.effect hash32 p (.run p o) = some (.make (.object x)) := by
      simp [effect,pc,made]
    rw [heffect,written]
    rw [pc] at sofar
    obtain ⟨⟨dest,rfl⟩,hgot,hw⟩ := sofar
    obtain ⟨hlow,hhigh,-⟩ := MessageCache.create_eq_ok made
    exact ⟨dest,len,block,.object x,es,rfl,rfl,rfl,hgot,rfl,⟨hlow,hhigh⟩,hw⟩
  | @messageFailed o m len block code action pc failed next written =>
    subst act
    refine goes_on (by rw [pc]; rfl) rfl next fun c' es serves sofar => ?_
    have heffect : s.effect hash32 p (.run p o) = none := by
      simp [effect,pc,failed]
    rw [heffect,written,Option.toList_none,List.append_nil]
    rw [pc] at sofar
    obtain ⟨⟨dest,rfl⟩,hgot,hw⟩ := sofar
    rw [hw]
    rcases MessageCache.create_code failed with ⟨rfl,hlen⟩ | ⟨hlen,hcode⟩
    · exact Contract.badLength hgot hlen
    · exact Contract.notMade hgot hlen hcode
  | countFault action pc fault next written =>
    subst act
    refine goes_on (by rw [pc]; rfl) rfl next fun c' es serves sofar => ?_
    rw [effect_of_idle pc rfl nofun nofun nofun,written,Option.toList_none,List.append_nil]
    rw [pc] at sofar
    obtain ⟨rfl,hgot,hw⟩ := sofar
    rw [hw]
    exact Contract.notCounted hgot fault
  | @countCopied o m stop count action pc writable next written =>
    subst act
    refine goes_on (by rw [pc]; rfl) rfl next fun c' es serves sofar => ?_
    rw [effect_of_idle pc rfl nofun nofun nofun,written,Option.toList_none,List.append_nil]
    rw [pc] at sofar
    obtain ⟨rfl,hgot,hw⟩ := sofar
    rw [hw]
    cases stop with
    | true => exact ⟨count,_,rfl,writable,hgot,rfl⟩
    | false => exact Contract.counted hgot writable
  | @copied o m x ptrs action pc writable next written =>
    subst act
    refine goes_on (by rw [pc]; rfl) rfl next fun c' es serves sofar => ?_
    rw [effect_of_idle pc rfl nofun nofun nofun,written,Option.toList_none,List.append_nil]
    rw [pc] at sofar
    obtain ⟨block,got,rfl,hgot,rfl,hw⟩ := sofar
    have hreads : s'.messages.Reads x (s.messages.read o x) :=
      (reads_copied known pc o).mono h.extends
    rw [hw]
    change Contract _ _ _ .ok _ _
    simpa using @Contract.recieved _ _ ptrs block m _ x _ hgot hreads writable
  | @copyFault o m x ptrs action pc fault next written =>
    subst act
    refine goes_on (by rw [pc]; rfl) rfl next fun c' es serves sofar => ?_
    rw [effect_of_idle pc rfl nofun nofun nofun,written,Option.toList_none,List.append_nil]
    rw [pc] at sofar
    obtain ⟨block,got,rfl,hgot,rfl,hw⟩ := sofar
    have hreads : s'.messages.Reads x (s.messages.read o x) :=
      (reads_copied known pc o).mono h.extends
    rw [hw]
    exact ⟨ptrs,block,x,got,_,rfl,rfl,hgot,rfl,hreads,fault,rfl⟩
  | @destroyed o x action pc messages next written =>
    subst act
    refine goes_on (by rw [pc]; rfl) rfl next fun c' es serves sofar => ?_
    have heffect : s.effect hash32 p (.run p o) = some (.destroy x) := by
      simp [effect,pc]
    rw [heffect,written]
    rw [pc] at sofar
    exact sofar

theorem contractInvariant_of_run (h : Run (step hash32) (initial sig) tr s) :
    ContractInvariant hash32 tr s := by
  refine h.history_invariant (fun p busy => by cases busy) ?_
  intro tr s act s' prior inv taken
  refine inv.stepped (callInvariant_of_run prior) (consistent_of_run prior)
    (threadInvariant_of_run prior) (inBounds_of_run (prior.snoc taken)) ?_ (step_stepped taken)
  intro p n holds
  exact ((custodyInvariant_of_run prior).custody.live (.call p) n holds).1

/-- Whenever a task is back from a call, in whatever order the threads ran, the call has taken one of
its courses: it has done what goes with its code to a mailbox of the process it was about, each thing
once and in order, and has written no more than that to user space. -/
theorem calls_keep_contract (h : Run (step hash32) (initial sig) tr s) {code : Code}
    (back : s.pc p = .user (some code)) : ∃ i c, callOf p tr = some (i,c) ∧
      Contract (s.Mine (s.key p c)) s.messages c code (effects hash32 p (tr.drop i))
        (s.written p) := by
  obtain ⟨i,c,hcall,hsofar⟩ := contractInvariant_of_run h p (by rw [back]; rfl)
  rw [back] at hsofar
  exact ⟨i,c,hcall,hsofar⟩

/-- Process 1001 cannot take the message it has sent itself: the receive puts it back. -/
theorem calls_keep_contract_after_fault : ∃ (tr : List (System × Action)) (s : System),
    Run (step goldenHash32) (initial fun _ => false) tr s ∧ s.pc 1001 = .user (some .msgArgError) ∧
      ∃ i c, callOf 1001 tr = some (i,c) ∧ Contract (s.Mine (s.key 1001 c)) s.messages c .msgArgError
        (effects goldenHash32 1001 (tr.drop i)) (s.written 1001) := by
  obtain ⟨tr,s,hrun,htest⟩ := exists_run_of_execute (step goldenHash32) (initial fun _ => false)
    ([.newProcess 1001 1000,.enter 1001 (.sendMessage 1001 0 false)] ++ runs 1001 6 ++
      [.enter 1001 (.recieveMessage ⟨0,0,4⟩ false)] ++ runs 1001 8)
    (fun _ s => decide (s.pc 1001 = .user (some .msgArgError))) (by decide +kernel)
  have hback := of_decide_eq_true htest
  exact ⟨tr,s,hrun,hback,calls_keep_contract hrun hback⟩

end System
end ProcessMessagePassing
