import ProcessMessagePassing.Kernel.Tasks
import Mathlib.Data.List.Infix

/-! Loading and unloading the module. `interceptor_start` and `interceptor_end` run statement by
statement among the calls, which go through whatever `sys_call_table` holds at the time. -/
namespace ProcessMessagePassing
open Concurrency HashTable

/-- `message_cache` and `mailbox_cache` -/
inductive Cache
  | message
  | mailbox
  deriving DecidableEq, Repr

inductive CacheState
  | missing
  | created
  | destroyed
  deriving DecidableEq, Repr

/-- The entries of `sys_call_table` that the module replaces. -/
inductive Entry
  | cs3013Syscall1
  | cs3013Syscall2
  | cs3013Syscall3
  | exit
  | exitGroup
  deriving DecidableEq, Repr

/-- What an entry points to: the function that the kernel came with, or that of the module. -/
inductive Handler
  | original
  | replaced
  deriving DecidableEq, Repr

/-- The statements of `interceptor_start` and `interceptor_end`. -/
inductive Statement
  | messageInit
  | mailboxInit
  | mailboxManagerInit
  | store (e : Entry)
  | replace (e : Entry)
  | messageExit
  | mailboxExit
  | mailboxManagerExit
  | revert (e : Entry)
  deriving DecidableEq, Repr

def interceptorStart : List Statement :=
  [.messageInit,.mailboxInit,.mailboxManagerInit,
    .store .cs3013Syscall1,.store .cs3013Syscall2,.store .cs3013Syscall3,
    .store .exit,.store .exitGroup,
    .replace .cs3013Syscall1,.replace .cs3013Syscall2,.replace .cs3013Syscall3,
    .replace .exit,.replace .exitGroup]

def interceptorEnd : List Statement :=
  [.messageExit,.mailboxExit,.mailboxManagerExit,
    .revert .cs3013Syscall1,.revert .cs3013Syscall2,.revert .cs3013Syscall3,
    .revert .exit,.revert .exitGroup]

inductive ModuleState
  | unloaded
  | coming
  | live
  | going
  | gone
  deriving DecidableEq, Repr

/-- Where a load or an unload leads. -/
def ModuleState.finish : ModuleState → ModuleState
  | .coming => .live
  | .going => .gone
  | state => state

/-- The kernel with the module on its way in or out of it. -/
structure Interceptor where
  system : System
  state : ModuleState
  /-- What `interceptor_start` or `interceptor_end` has still to run. -/
  rest : List Statement
  sysCallTable : Entry → Handler
  /-- `ref_sys_cs3013_syscall1` and the other saved entries. -/
  ref : Entry → Handler
  cache : Cache → CacheState

/-- The entry that a message call goes through. -/
def Syscall.entry : Syscall → Entry
  | .sendMessage _ _ _ => .cs3013Syscall1
  | .recieveMessage _ _ => .cs3013Syscall2
  | .manageMailbox _ _ => .cs3013Syscall3

/-- The call, from its start on, may allocate from the cache or free to it. -/
def Syscall.mayUse : Cache → Syscall → Bool
  | .message, .manageMailbox _ _ => false
  | _, _ => true

/-- The same for what is left of a call, or of an exit hook and the deletion thread that it starts. -/
def Pc.mayUse (c : Cache) : Pc → Bool
  | .validate _ call => call.mayUse c
  | .lookup _ call => call.mayUse c
  | .onMailbox _ _ (.claimed _ call) => decide (c = .message) && call.mayUse c
  | .checkExiting _ call => decide (c = .message) && call.mayUse c
  | .createMessage _ _ _ => decide (c = .message)
  | .onMailbox _ _ (.removed _) => decide (c = .message)
  | .copyToUser _ _ _ => decide (c = .message)
  | .onMailbox _ _ (.delivered _) => decide (c = .message)
  | .destroyMessage _ => decide (c = .message)
  | .exitHook => true
  | .removeLookup _ => true
  | .onMailbox _ _ (.hook _) => true
  | .startDeletion _ _ => true
  | _ => false

/-- The same for what is left of a deletion thread. -/
def DeletionPc.mayUse (c : Cache) : DeletionPc → Bool
  | .done => false
  | .destroying .awaitUnclaimed => decide (c = .mailbox)
  | .destroying .awaitingUnclaimed => decide (c = .mailbox)
  | .destroying .free => decide (c = .mailbox)
  | _ => true

namespace System

/-- The step calls `kmem_cache_alloc` or `kmem_cache_free` on the cache. -/
def usesCache (hash32 : Pid → ℕ) (s : System) (act : Action) : Cache → Bool
  | .message =>
    match act with
    | .run p _ =>
      match s.pc p with
      | .createMessage _ len _ => decide (0 ≤ len ∧ len ≤ maxMsgSize)
      | .destroyMessage _ => true
      | _ => false
    | .runDeletion _ _ =>
      match s.outcome act with
      | some (_,.flushed (_ :: _)) => true
      | _ => false
    | _ => false
  | .mailbox =>
    match act with
    | .run p _ =>
      match s.pc p with
      | .lookup pid _ => (s.get hash32 pid).isNone
      | _ => false
    | .runDeletion k _ =>
      match s.deletions k with
      | some ⟨_,.destroying .free⟩ => true
      | _ => false
    | _ => false

/-- No call, exit hook or deletion thread in progress may still use the cache. -/
structure Quiet (c : Cache) (s : System) : Prop where
  tasks : ∀ p, (s.pc p).mayUse c = false
  deletions : ∀ k d, s.deletions k = some d → d.pc.mayUse c = false

/-- A task in user mode calls the function that the kernel came with, which leaves the module
alone. -/
def originalCall (s : System) (p : Pid) : Option System :=
  match s.pc p with
  | .user _ => some s
  | _ => none

/-- The exit of a task that does not go through the hook of the module. -/
def originalExit (s : System) (p : Pid) (group : Bool) : Option System :=
  match s.pc p with
  | .user _ => some (s.setPc p (.realExit group))
  | _ => none

/-- A step of the kernel with these entries in `sys_call_table`. -/
def dispatch (hash32 : Pid → ℕ) (table : Entry → Handler) (s : System) : Action → Option System
  | .enter p call =>
    if table call.entry = .replaced then step hash32 s (.enter p call) else s.originalCall p
  | .exit p =>
    if table .exit = .replaced then step hash32 s (.exit p) else s.originalExit p false
  | .exitGroup p =>
    if table .exitGroup = .replaced then step hash32 s (.exitGroup p) else s.originalExit p true
  | act => step hash32 s act

end System

/-- The entry that the action goes through, and which caches the handler of the module may use. -/
def Action.dispatches : Action → Option (Entry × (Cache → Bool))
  | .enter _ call => some (call.entry,fun c => call.mayUse c)
  | .exit _ => some (.exit,fun _ => true)
  | .exitGroup _ => some (.exitGroup,fun _ => true)
  | _ => none

/-- The statement that calls `kmem_cache_create` for the cache. -/
def Cache.init : Cache → Statement
  | .message => .messageInit
  | .mailbox => .mailboxInit

/-- The statement that calls `kmem_cache_destroy` on the cache. -/
def Cache.exit : Cache → Statement
  | .message => .messageExit
  | .mailbox => .mailboxExit

namespace Interceptor

/-- The module is loaded and unloaded, its statements run, and the kernel takes its steps. -/
inductive Action
  | insmod (found : Bool)
  | rmmod
  | statement (memory : Bool)
  | kernel (act : ProcessMessagePassing.Action)
  deriving DecidableEq, Repr

def initial (sig : Actor → Bool) : Interceptor where
  system := .initial sig
  state := .unloaded
  rest := []
  sysCallTable := fun _ => .original
  ref := fun _ => .original
  cache := fun _ => .missing

def setCache (s : Interceptor) (c : Cache) (state : CacheState) : Interceptor :=
  { s with cache := Function.update s.cache c state }

/-- The effect of one statement. Nobody looks at the result of `kmem_cache_create`. -/
def runStatement (s : Interceptor) (memory : Bool) : Statement → Interceptor
  | .messageInit => s.setCache .message (if memory then .created else .missing)
  | .mailboxInit => s.setCache .mailbox (if memory then .created else .missing)
  | .mailboxManagerInit => { s with system := { s.system with table := .init } }
  | .store e => { s with ref := Function.update s.ref e (s.sysCallTable e) }
  | .replace e => { s with sysCallTable := Function.update s.sysCallTable e .replaced }
  | .messageExit => s.setCache .message .destroyed
  | .mailboxExit => s.setCache .mailbox .destroyed
  | .mailboxManagerExit => s
  | .revert e => { s with sysCallTable := Function.update s.sysCallTable e (s.ref e) }

/-- A load is cancelled when `find_sys_call_table` finds nothing. -/
def step (hash32 : Pid → ℕ) (s : Interceptor) : Action → Option Interceptor
  | .insmod found =>
    if s.state = .unloaded then
      some (if found then { s with state := .coming, rest := interceptorStart } else s)
    else none
  | .rmmod =>
    if s.state = .live then some { s with state := .going, rest := interceptorEnd } else none
  | .statement memory =>
    match s.rest with
    | [] => none
    | x :: xs =>
      some { s.runStatement memory x with
        rest := xs
        state := if xs = [] then s.state.finish else s.state }
  | .kernel act =>
    (s.system.dispatch hash32 s.sysCallTable act).map fun system => { s with system := system }

/-- Whoever allocates from a cache or frees to it does so while the cache exists. -/
def CachesOutlive (hash32 : Pid → ℕ) (tr : List (Interceptor × Action)) : Prop :=
  ∀ x ∈ tr, ∀ act c, x.2 = .kernel act → x.1.system.usesCache hash32 act c = true →
    x.1.cache c = .created

/-- A cache is created, it is destroyed only when nobody in progress may still use it, and no call or
exit goes through a replaced entry to a handler that may use a destroyed cache. -/
structure Orderly (s : Interceptor) (act : Action) : Prop where
  created : ∀ memory c, act = .statement memory → s.rest.head? = some (Cache.init c) → memory = true
  destroyed : ∀ memory c, act = .statement memory → s.rest.head? = some (Cache.exit c) →
    s.system.Quiet c
  dispatched : ∀ act' e uses c, act = .kernel act' → act'.dispatches = some (e,uses) →
    s.sysCallTable e = .replaced → uses c = true → s.cache c ≠ .destroyed

end Interceptor

lemma mayUse_begin {c : Cache} {call : Syscall} (m : ℕ)
    (h : (decide (c = .message) && call.mayUse c) = false) : (call.begin m).mayUse c = false := by
  cases call with
  | manageMailbox => rfl
  | sendMessage | recieveMessage => cases c <;> exact h

lemma mayUse_resume {c : Cache} {m : ℕ} {cs : CallState MessagePtr} {k : Cont} (r : Ret MessagePtr)
    (h : (Pc.onMailbox m cs k).mayUse c = false) : (k.resume m r).mayUse c = false := by
  cases k with
  | claimed fresh call =>
    cases fresh with
    | true => exact mayUse_begin m h
    | false => exact h
  | removed ptrs =>
    cases r with
    | code => rfl
    | message e => exact h
  | delivered x => exact h
  | hook group => cases h
  | added | refused | putBack | stopped | unclaimed => rfl

/-- A deletion thread that is past its uses of the cache stays past them. -/
lemma mayUse_stays {a : Actor} {sig : Bool} {m m' : Mailbox Actor MessagePtr}
    {cs cs' : CallState MessagePtr} {c : Cache} (h : Mailbox.Locked a sig m cs m' (.next cs'))
    (off : (DeletionPc.destroying cs).mayUse c = false) :
    (DeletionPc.destroying cs').mayUse c = false := by
  cases h with
  | unclaimedSleep awaiting | unclaimedNow awaiting => rcases awaiting with rfl | rfl <;> exact off
  | flushSleep flushing => rcases flushing with rfl | rfl <;> cases off
  | _ => cases off

namespace System
variable {hash32 : Pid → ℕ} {s s' : System} {act : Action} {c : Cache} {p : Pid}

/-- A step of the kernel is a step of the system through entries that are replaced, or the kernel's own
function ran. -/
lemma dispatch_cases {table : Entry → Handler} (h : s.dispatch hash32 table act = some s') :
    (step hash32 s act = some s' ∧
        ∀ e uses, act.dispatches = some (e,uses) → table e = .replaced) ∨
      s' = s ∨ ∃ p group, act.moves = some p ∧ s' = s.setPc p (.realExit group) := by
  have hexit : ∀ p group, s.originalExit p group = some s' → s' = s.setPc p (.realExit group) := by
    intro p group h
    unfold originalExit at h
    split at h
    · exact (Option.some.inj h).symm
    · cases h
  unfold dispatch at h
  split at h
  · next p call =>
    split_ifs at h with htable
    · left
      refine ⟨h,?_⟩
      rintro e uses ⟨⟩
      exact htable
    · right
      left
      unfold originalCall at h
      split at h
      · exact (Option.some.inj h).symm
      · cases h
  · next p =>
    split_ifs at h with htable
    · left
      refine ⟨h,?_⟩
      rintro e uses ⟨⟩
      exact htable
    · exact .inr (.inr ⟨p,false,rfl,hexit p false h⟩)
  · next p =>
    split_ifs at h with htable
    · left
      refine ⟨h,?_⟩
      rintro e uses ⟨⟩
      exact htable
    · exact .inr (.inr ⟨p,true,rfl,hexit p true h⟩)
  · next hcall hexit hgroup =>
    left
    refine ⟨h,?_⟩
    intro e uses hact
    cases act with
    | enter p call => exact absurd rfl (hcall p call)
    | exit p => exact absurd rfl (hexit p)
    | exitGroup p => exact absurd rfl (hgroup p)
    | _ => cases hact

/-- Only an exit hook starts a deletion thread. -/
lemma no_deletions_stepped (h : Stepped hash32 s act s') (idle : ∀ k, s.deletions k = none)
    (off : ∀ p, act.moves = some p → ∀ m group, s.pc p ≠ .startDeletion m group) :
    ∀ k, s'.deletions k = none := by
  cases h with
  | deletionStarted pc => exact absurd pc (off _ rfl _ _)
  | ownerRead deletion | stillValid deletion | exited deletion | unlinked deletion
  | destroyStays deletion | flushed deletion | deleted deletion =>
    rw [idle] at deletion
    cases deletion
  | _ => exact idle

namespace Quiet
variable (quiet : s.Quiet c)
include quiet

lemma setPc {d : Pc} (pc : s'.pc = Function.update s.pc p d) (deletions : s'.deletions = s.deletions)
    (off : d.mayUse c = false) : s'.Quiet c where
  tasks q := by
    rw [pc]
    by_cases hq : q = p
    · subst q
      rw [Function.update_self]
      exact off
    · rw [Function.update_of_ne hq]
      exact quiet.tasks q
  deletions := by
    rw [deletions]
    exact quiet.deletions

lemma setDeletion {k : ℕ} {d : DeletionThread} (pc : s'.pc = s.pc)
    (deletions : s'.deletions = Function.update s.deletions k (some d))
    (off : d.pc.mayUse c = false) : s'.Quiet c where
  tasks := by
    rw [pc]
    exact quiet.tasks
  deletions j e he := by
    rw [deletions] at he
    by_cases hj : j = k
    · subst j
      rw [Function.update_self] at he
      cases he
      exact off
    · rw [Function.update_of_ne hj] at he
      exact quiet.deletions j e he

lemma of_eq (pc : s'.pc = s.pc) (deletions : s'.deletions = s.deletions) : s'.Quiet c where
  tasks := by
    rw [pc]
    exact quiet.tasks
  deletions := by
    rw [deletions]
    exact quiet.deletions

lemma task {d : Pc} (pc : s.pc p = d) : d.mayUse c = false := pc ▸ quiet.tasks p

/-- Where nobody may use the cache any more, only a dispatched call can change that. -/
theorem stepped (h : Stepped hash32 s act s')
    (calls : ∀ e uses, act.dispatches = some (e,uses) → uses c = false) : s'.Quiet c := by
  cases h with
  | newProcess | clone | killed | reap | invalid | outOfMemory | refused | messageFailed
  | countFault | destroyed | otherThread | removalMissing | deletionFailed | realExit
  | decrementLive | die => exact quiet.setPc rfl rfl rfl
  | @enter p call last user => exact quiet.setPc rfl rfl (calls _ _ rfl)
  | exit | exitGroup => cases calls _ _ rfl
  | fatalSignal | signal | handle | stillValid => exact quiet.of_eq rfl rfl
  | valid pc =>
    have hold := quiet.task pc
    exact quiet.setPc rfl rfl hold
  | @found p o pid call m pc =>
    refine quiet.setPc rfl rfl ?_
    have hcall : call.mayUse c = false := quiet.task pc
    simp [Pc.mayUse,hcall]
  | @created p o pid call pc =>
    have hcall : call.mayUse c = false := quiet.task pc
    have hpc : (s.createMailbox hash32 p pid call).pc =
        Function.update s.pc p (.onMailbox s.mailboxesCreated .claim (.claimed true call)) := rfl
    apply quiet.setPc hpc rfl
    simp [Pc.mayUse,hcall]
  | @stays p o m cs k m' pr cs' pc =>
    refine quiet.setPc rfl rfl ?_
    have hold := quiet.task pc
    cases k <;> exact hold
  | @returned p o m cs k m' r pc =>
    have hold := quiet.task pc
    exact quiet.setPc rfl rfl (mayUse_resume r hold)
  | @granted p o m call pc => exact quiet.setPc rfl rfl (mayUse_begin m (quiet.task pc))
  | messageCreated => exact quiet.setPc rfl rfl rfl
  | @countCopied p o m stop count pc =>
    refine quiet.setPc rfl rfl ?_
    cases stop <;> rfl
  | copied pc =>
    have hold := quiet.task pc
    exact quiet.setPc rfl rfl hold
  | copyFault => exact quiet.setPc rfl rfl rfl
  | lastThread pc | removalFound pc | deletionStarted pc => cases quiet.task pc
  | @ownerRead k m o pid deletion => cases quiet.deletions k _ deletion
  | @exited k m o pid deletion => cases quiet.deletions k _ deletion
  | @unlinked k m o pid deletion => cases quiet.deletions k _ deletion
  | @destroyStays k m o cs m' cs' deletion locked =>
    exact quiet.setDeletion rfl rfl (mayUse_stays locked.2 (quiet.deletions k _ deletion))
  | @flushed k m o cs m' xs deletion locked =>
    have hold := quiet.deletions k _ deletion
    obtain ⟨hflush,-,-⟩ := locked.2.flushed_when
    rcases hflush with rfl | rfl <;> cases hold
  | deleted => exact quiet.setDeletion rfl rfl rfl

/-- Where nobody may use the cache, nobody does. -/
theorem unused (act : Action) : s.usesCache hash32 act c = false := by
  by_contra h
  have huses : s.usesCache hash32 act c = true := (Bool.not_eq_false _).mp h
  cases act with
  | run p o =>
    have hp := quiet.tasks p
    cases c with
    | message =>
      simp only [usesCache] at huses
      split at huses
      · next hpc =>
        rw [hpc] at hp
        cases hp
      · next hpc =>
        rw [hpc] at hp
        cases hp
      · cases huses
    | mailbox =>
      simp only [usesCache] at huses
      split at huses
      · next pid call hpc =>
        rw [hpc] at hp
        cases call <;> cases hp
      · cases huses
  | runDeletion k o =>
    cases c with
    | message =>
      simp only [usesCache] at huses
      split at huses
      · next m x xs hout =>
        -- only a thread that is still to flush can flush
        obtain ⟨⟨a,n,cs⟩,running,he⟩ := Option.map_eq_some_iff.mp hout
        obtain ⟨-,hpr⟩ := Prod.mk.inj he
        have hlocked := Mailbox.criticalSection_locked a (s.signalPending a) (s.mailboxes n) cs
        rw [show _ = Progress.flushed (x :: xs) from hpr] at hlocked
        obtain ⟨hflush,-,-⟩ := hlocked.flushed_when
        obtain ⟨hactor,hcalled⟩ := running_eq_some_iff.mp running
        cases hactor
        obtain ⟨d,hd,hcall⟩ := Option.bind_eq_some_iff.mp hcalled
        obtain rfl := d.call_eq hcall
        have hold := quiet.deletions k _ hd
        rcases hflush with rfl | rfl <;> cases hold
      · cases huses
    | mailbox =>
      simp only [usesCache] at huses
      split at huses
      · next m hd => cases quiet.deletions k _ hd
      · cases huses
  | _ => cases c <;> cases huses

/-- The kernel keeps it so, as long as no call or exit goes through a replaced entry to a handler that
may use the cache. -/
theorem dispatched {table : Entry → Handler} (h : s.dispatch hash32 table act = some s')
    (calls : ∀ e uses, act.dispatches = some (e,uses) → table e = .replaced → uses c = false) :
    s'.Quiet c := by
  rcases dispatch_cases h with ⟨ht,hreplaced⟩ | rfl | ⟨p,group,-,rfl⟩
  · exact quiet.stepped (step_stepped ht) fun e uses hact => calls e uses hact (hreplaced e uses hact)
  · exact quiet
  · exact quiet.setPc rfl rfl rfl

end Quiet
end System

namespace Interceptor
variable {hash32 : Pid → ℕ} {sig : Actor → Bool} {s s' : Interceptor} {act : Action}
  {tr : List (Interceptor × Action)}

/-- Where the module stands, and that nobody may use a cache that is not there. -/
structure LoadInvariant (s : Interceptor) : Prop where
  coming : s.state = .coming → s.rest <:+ interceptorStart
  going : s.state = .going → s.rest <:+ interceptorEnd
  idle : s.state ≠ .coming → s.state ≠ .going → s.rest = []
  missing : ∀ c, s.cache c = .missing → s.state = .unloaded ∨ s.state = .coming ∧ c.init ∈ s.rest
  original : ∀ c e, s.cache c = .missing → s.sysCallTable e = .original
  quiet : ∀ c, s.cache c ≠ .created → s.system.Quiet c

theorem loadInvariant_initial : LoadInvariant (initial sig) where
  coming h := by cases h
  going h := by cases h
  idle _ _ := rfl
  missing _ _ := .inl rfl
  original _ _ _ := rfl
  quiet c _ := ⟨fun p => rfl,fun k d h => by cases h⟩

/-- A load destroys no cache, and it replaces entries after it has created the caches. -/
lemma of_start_suffix {x : Statement} {xs : List Statement} (h : x :: xs <:+ interceptorStart) :
    (∀ c, x ≠ Cache.exit c) ∧ (∀ e, x ≠ .revert e) ∧ ∀ e, x = .replace e → ∀ c, Cache.init c ∉ xs := by
  have hall : ∀ l ∈ interceptorStart.tails, ∀ x ∈ l.head?, x ≠ .messageExit ∧ x ≠ .mailboxExit ∧
      (∀ e ∈ [Entry.cs3013Syscall1,.cs3013Syscall2,.cs3013Syscall3,.exit,.exitGroup], x ≠ .revert e ∧
        (x = .replace e → Statement.messageInit ∉ l.tail ∧ Statement.mailboxInit ∉ l.tail)) := by
    decide
  obtain ⟨hmessage,hmailbox,hentries⟩ := hall _ ((List.mem_tails _ _).mpr h) x rfl
  refine ⟨?_,?_,?_⟩
  · intro c
    cases c with
    | message => exact hmessage
    | mailbox => exact hmailbox
  · intro e
    exact (hentries e (by cases e <;> simp)).1
  · intro e he c
    have hinit := (hentries e (by cases e <;> simp)).2 he
    cases c with
    | message => exact hinit.1
    | mailbox => exact hinit.2

lemma cache_runStatement (s : Interceptor) (memory : Bool) (x : Statement) (c : Cache) :
    (s.runStatement memory x).cache c =
      if x = c.init then if memory = true then .created else .missing
      else if x = c.exit then .destroyed else s.cache c := by
  cases x <;> cases c <;> simp [runStatement,setCache,Cache.init,Cache.exit]

lemma sysCallTable_runStatement (s : Interceptor) (memory : Bool) {x : Statement}
    (replace : ∀ e, x ≠ .replace e) (revert : ∀ e, x ≠ .revert e) :
    (s.runStatement memory x).sysCallTable = s.sysCallTable := by
  cases x with
  | replace e => exact absurd rfl (replace e)
  | revert e => exact absurd rfl (revert e)
  | _ => rfl

lemma quiet_runStatement {c : Cache} (quiet : s.system.Quiet c) (memory : Bool) (x : Statement) :
    (s.runStatement memory x).system.Quiet c := by
  cases x <;> exact quiet.of_eq rfl rfl

lemma finish_ne_coming (state : ModuleState) : state.finish ≠ .coming := by cases state <;> nofun

lemma finish_ne_going (state : ModuleState) : state.finish ≠ .going := by cases state <;> nofun

variable (inv : LoadInvariant s)
include inv

lemma LoadInvariant.running_of_rest {x : Statement} {xs : List Statement} (rest : s.rest = x :: xs) :
    s.state = .coming ∨ s.state = .going := by
  by_contra h
  obtain ⟨hcoming,hgoing⟩ := not_or.mp h
  rw [inv.idle hcoming hgoing] at rest
  cases rest

lemma LoadInvariant.insmod {found : Bool} (h : step hash32 s (.insmod found) = some s') :
    LoadInvariant s' := by
  simp only [step] at h
  have hinit : ∀ c, Cache.init c ∈ interceptorStart := fun c => by cases c <;> decide
  split_ifs at h with hstate hfound
  · cases h
    exact
      { coming := fun _ => List.suffix_refl _
        going := fun h => by cases h
        idle := fun h => absurd rfl h
        missing := fun c _ => .inr ⟨rfl,hinit c⟩
        original := inv.original
        quiet := inv.quiet }
  · cases h
    exact inv

lemma LoadInvariant.rmmod (h : step hash32 s .rmmod = some s') : LoadInvariant s' := by
  simp only [step] at h
  split_ifs at h with hstate
  cases h
  exact
    { coming := fun h => by cases h
      going := fun _ => List.suffix_refl _
      idle := fun _ h => absurd rfl h
      missing := fun c hc => by
        rcases inv.missing c hc with hu | ⟨hu,-⟩
        · rw [hstate] at hu
          cases hu
        · rw [hstate] at hu
          cases hu
      original := inv.original
      quiet := inv.quiet }

lemma LoadInvariant.kernel {a : ProcessMessagePassing.Action}
    (h : step hash32 s (.kernel a) = some s') (orderly : Orderly s (.kernel a)) : LoadInvariant s' := by
  obtain ⟨system,hsystem,rfl⟩ := Option.map_eq_some_iff.mp h
  exact
    { coming := inv.coming
      going := inv.going
      idle := inv.idle
      missing := inv.missing
      original := inv.original
      quiet := by
        intro c hc
        refine (inv.quiet c hc).dispatched hsystem fun e uses hact htable => ?_
        by_contra huses
        have hused := (Bool.not_eq_false _).mp huses
        have hdestroyed := orderly.dispatched a e uses c rfl hact htable hused
        cases hcache : s.cache c with
        | missing =>
          rw [inv.original c e hcache] at htable
          cases htable
        | created => exact hc hcache
        | destroyed => exact hdestroyed hcache }

/-- A cache that is missing after a statement of an orderly load is still to be created. -/
lemma LoadInvariant.missing_runStatement {memory : Bool} {x : Statement} {xs : List Statement}
    (rest : s.rest = x :: xs) (orderly : Orderly s (.statement memory)) {c : Cache}
    (missing : (s.runStatement memory x).cache c = .missing) :
    s.cache c = .missing ∧ s.state = .coming ∧ c.init ∈ xs := by
  rw [cache_runStatement] at missing
  split_ifs at missing with hinit hmemory hexit
  · have hcreated := orderly.created memory c rfl (by rw [rest,← hinit]; rfl)
    exact absurd hcreated hmemory
  · rcases inv.missing c missing with hunloaded | ⟨hcoming,hmem⟩
    · rcases inv.running_of_rest rest with h | h
      · rw [hunloaded] at h
        cases h
      · rw [hunloaded] at h
        cases h
    · rw [rest] at hmem
      rcases List.mem_cons.mp hmem with he | hmem
      · exact absurd he.symm hinit
      · exact ⟨missing,hcoming,hmem⟩

lemma LoadInvariant.statement {memory : Bool} (h : step hash32 s (.statement memory) = some s')
    (orderly : Orderly s (.statement memory)) : LoadInvariant s' := by
  simp only [step] at h
  cases hrest : s.rest with
  | nil =>
    rw [hrest] at h
    cases h
  | cons x xs =>
    rw [hrest] at h
    cases h
    have hsuffix : xs <:+ x :: xs := List.suffix_cons x xs
    constructor
    case coming =>
      intro hstate
      dsimp only at hstate ⊢
      split_ifs at hstate with hxs
      · exact absurd hstate (finish_ne_coming _)
      · have hstart := inv.coming hstate
        rw [hrest] at hstart
        exact hsuffix.trans hstart
    case going =>
      intro hstate
      dsimp only at hstate ⊢
      split_ifs at hstate with hxs
      · exact absurd hstate (finish_ne_going _)
      · have hend := inv.going hstate
        rw [hrest] at hend
        exact hsuffix.trans hend
    case idle =>
      intro hcoming hgoing
      dsimp only at hcoming hgoing ⊢
      by_contra hxs
      rw [if_neg hxs] at hcoming hgoing
      rcases inv.running_of_rest hrest with h | h
      · exact hcoming h
      · exact hgoing h
    case missing =>
      intro c hc
      obtain ⟨-,hcoming,hmem⟩ := inv.missing_runStatement hrest orderly hc
      have hxs : xs ≠ [] := List.ne_nil_of_mem hmem
      exact .inr ⟨(if_neg hxs).trans hcoming,hmem⟩
    case original =>
      intro c e hc
      obtain ⟨hmissing,hcoming,hmem⟩ := inv.missing_runStatement hrest orderly hc
      have hstart := inv.coming hcoming
      rw [hrest] at hstart
      obtain ⟨-,hrevert,hreplace⟩ := of_start_suffix hstart
      have htable := sysCallTable_runStatement s memory
        (fun e' he => hreplace e' he c hmem) hrevert
      exact (congrFun htable e).trans (inv.original c e hmissing)
    case quiet =>
      intro c hc
      refine quiet_runStatement ?_ memory x
      change (s.runStatement memory x).cache c ≠ .created at hc
      rw [cache_runStatement] at hc
      split_ifs at hc with hinit hmemory hexit
      · exact absurd rfl hc
      · have hcreated := orderly.created memory c rfl (by rw [hrest,← hinit]; rfl)
        exact absurd hcreated hmemory
      · exact orderly.destroyed memory c rfl (by rw [hrest,← hexit]; rfl)
      · exact inv.quiet c hc

omit inv in
theorem loadInvariant_of_run (h : Run (step hash32) (initial sig) tr s)
    (orderly : ∀ x ∈ tr, Orderly x.1 x.2) : LoadInvariant s := by
  refine Run.invariant_of_guard loadInvariant_initial ?_ h orderly
  intro s act s' inv horderly ht
  cases act with
  | insmod found => exact inv.insmod ht
  | rmmod => exact inv.rmmod ht
  | statement memory => exact inv.statement ht horderly
  | kernel a => exact inv.kernel ht horderly

omit inv in
/-- In every orderly run the caches outlive their users. -/
theorem cachesOutlive_of_orderly (h : Run (step hash32) (initial sig) tr s)
    (orderly : ∀ x ∈ tr, Orderly x.1 x.2) : CachesOutlive hash32 tr := by
  intro x hx act c hact huses
  obtain ⟨before,after,u,rfl,hbefore,-,-⟩ := h.split hx
  have hinv := loadInvariant_of_run hbefore fun y hy => orderly y (List.mem_append_left _ hy)
  by_contra hcache
  rw [(hinv.quiet c hcache).unused act] at huses
  cases huses

omit inv in
/-- The step is orderly in a kernel in which nobody but this one task does anything. -/
def isOrderly (p : Pid) (x : Interceptor × Action) : Bool :=
  match x.2 with
  | .statement memory => memory &&
    (decide (x.1.rest.head? ≠ some .messageExit ∧ x.1.rest.head? ≠ some .mailboxExit) ||
      !(x.1.system.pc p).mayUse .message && !(x.1.system.pc p).mayUse .mailbox)
  | .kernel act => decide (act.moves = none ∨ act.moves = some p) &&
    !(x.1.system.pc p).exits && act.dispatches.all fun (e,_) =>
      decide (x.1.sysCallTable e = .original ∨
        x.1.cache .message ≠ .destroyed ∧ x.1.cache .mailbox ≠ .destroyed)
  | _ => true

omit inv in
lemma onlyTask_of_run {p : Pid} (h : Run (step hash32) (initial sig) tr s)
    (alone : ∀ x ∈ tr, isOrderly p x = true) :
    (∀ q, q ≠ p → s.system.pc q = .absent) ∧ ∀ k, s.system.deletions k = none := by
  refine Run.invariant_of_guard (P := fun t => (∀ q, q ≠ p → t.system.pc q = .absent) ∧
    ∀ k, t.system.deletions k = none) (C := fun t a => isOrderly p (t,a) = true)
    ⟨fun q _ => rfl,fun k => rfl⟩ ?_ h alone
  rintro t act t' ⟨hothers,hdeletions⟩ hguard ht
  cases act with
  | insmod found =>
    simp only [step] at ht
    split_ifs at ht <;> cases ht <;> exact ⟨hothers,hdeletions⟩
  | rmmod =>
    simp only [step] at ht
    split_ifs at ht
    cases ht
    exact ⟨hothers,hdeletions⟩
  | statement memory =>
    simp only [step] at ht
    split at ht
    · cases ht
    · next x xs hrest =>
      cases ht
      cases x <;> exact ⟨hothers,hdeletions⟩
  | kernel act =>
    obtain ⟨system,hsystem,rfl⟩ := Option.map_eq_some_iff.mp ht
    simp only [isOrderly,Bool.and_eq_true,decide_eq_true_eq] at hguard
    obtain ⟨⟨hmoves,hexits⟩,-⟩ := hguard
    have hne : ∀ q, q ≠ p → act.moves ≠ some q := by
      rintro q hq hq'
      rcases hmoves with h | h
      · rw [h] at hq'
        cases hq'
      · rw [h] at hq'
        exact hq (Option.some.inj hq').symm
    rcases System.dispatch_cases hsystem with ⟨hstep,-⟩ | rfl | ⟨r,group,hr,rfl⟩
    · have hs := System.step_stepped hstep
      constructor
      · intro q hq
        rw [hs.pc_of_ne (hne q hq)]
        exact hothers q hq
      · refine System.no_deletions_stepped hs hdeletions fun r hr m group hpc => ?_
        by_cases hrp : r = p
        · subst r
          rw [hpc] at hexits
          cases hexits
        · rw [hothers r hrp] at hpc
          cases hpc
    · exact ⟨hothers,hdeletions⟩
    · refine ⟨fun q hq => ?_,hdeletions⟩
      have hqr : q ≠ r := fun he => hne q hq (he ▸ hr)
      rw [System.setPc_pc,Function.update_of_ne hqr]
      exact hothers q hq

omit inv in
lemma orderly_of_test {p : Pid} (h : Run (step hash32) (initial sig) tr s)
    (alone : ∀ x ∈ tr, isOrderly p x = true) {x : Interceptor × Action} (hx : x ∈ tr) :
    Orderly x.1 x.2 := by
  obtain ⟨before,after,u,rfl,hbefore,-,-⟩ := h.split hx
  obtain ⟨hothers,hdeletions⟩ := onlyTask_of_run hbefore fun y hy => alone y (List.mem_append_left _ hy)
  have htest := alone x hx
  constructor
  · intro memory c hact hrest
    simp only [isOrderly,hact,Bool.and_eq_true] at htest
    exact htest.1
  · intro memory c hact hrest
    simp only [isOrderly,hact,hrest,Bool.and_eq_true,Bool.or_eq_true,decide_eq_true_eq] at htest
    refine ⟨fun q => ?_,fun k d hd => ?_⟩
    · by_cases hq : q = p
      · subst q
        rcases htest.2 with hne | ⟨hmessage,hmailbox⟩
        · cases c with
          | message => exact absurd rfl hne.1
          | mailbox => exact absurd rfl hne.2
        · cases c with
          | message => exact Bool.not_eq_true' _ ▸ hmessage
          | mailbox => exact Bool.not_eq_true' _ ▸ hmailbox
      · rw [hothers q hq]
        rfl
    · rw [hdeletions k] at hd
      cases hd
  · intro act e uses c hact hdispatches htable huses
    simp only [isOrderly,hact,hdispatches,Bool.and_eq_true,Option.all_some,decide_eq_true_eq] at htest
    rcases htest.2 with horiginal | ⟨hmessage,hmailbox⟩
    · rw [htable] at horiginal
      cases horiginal
    · cases c with
      | message => exact hmessage
      | mailbox => exact hmailbox

omit inv in
/-- Process 1001 sends itself a message and receives it, then the module is unloaded, and the process
makes one more call. -/
theorem cachesOutlive_of_idle_unload : ∃ (tr : List (Interceptor × Action)) (s : Interceptor),
    Run (step goldenHash32) (initial fun _ => false) tr s ∧ CachesOutlive goldenHash32 tr ∧
      s.state = .gone ∧ s.system.messages.created = 1 ∧ s.system.messages.frees 0 = 1 := by
  obtain ⟨tr,s,hrun,htest⟩ := exists_run_of_execute (step goldenHash32) (initial fun _ => false)
    ([.kernel (.newProcess 1001 1000),.insmod true] ++ List.replicate 13 (.statement true) ++
      [.kernel (.enter 1001 (.sendMessage 1001 0 false))] ++
      List.replicate 6 (.kernel (.run 1001 .clear)) ++
      [.kernel (.enter 1001 (.recieveMessage ⟨4,4,4⟩ false))] ++
      List.replicate 8 (.kernel (.run 1001 .clear)) ++ [.rmmod] ++
      List.replicate 8 (.statement true) ++ [.kernel (.enter 1001 (.sendMessage 1001 0 false))])
    (fun tr s => tr.all (isOrderly 1001) && decide (s.state = .gone ∧
      s.system.messages.created = 1 ∧ s.system.messages.frees 0 = 1)) (by decide +kernel)
  rw [Bool.and_eq_true] at htest
  obtain ⟨horderly,hend⟩ := htest
  have halone := List.all_eq_true.mp horderly
  exact ⟨tr,s,hrun,cachesOutlive_of_orderly hrun fun x hx => orderly_of_test hrun halone hx,
    of_decide_eq_true hend⟩

omit inv in
/-- The module is unloaded while process 1001 goes on making calls; one of them allocates its mailbox
from the cache that has just been destroyed. -/
theorem exists_cache_destroyed_first : ∃ (tr : List (Interceptor × Action)) (s : Interceptor),
    Run (step goldenHash32) (initial fun _ => false) tr s ∧
      (∀ x ∈ tr, ∀ memory, x.2 = .statement memory → memory = true) ∧
      ¬ CachesOutlive goldenHash32 tr := by
  obtain ⟨tr,s,hrun,htest⟩ := exists_run_of_execute (step goldenHash32) (initial fun _ => false)
    ([.kernel (.newProcess 1001 1000),.insmod true] ++ List.replicate 13 (.statement true) ++
      [.rmmod,.statement true,.statement true,.kernel (.enter 1001 (.sendMessage 1001 0 false)),
        .kernel (.run 1001 .clear),.kernel (.run 1001 .clear)])
    (fun tr _ => tr.all (fun x => decide (x.2 ≠ .statement false)) &&
      tr.any (fun x => decide (x.2 = .kernel (.run 1001 .clear) ∧ x.1.cache .mailbox = .destroyed) &&
        x.1.system.usesCache goldenHash32 (.run 1001 .clear) .mailbox)) (by decide +kernel)
  rw [Bool.and_eq_true] at htest
  obtain ⟨hcreated,huses⟩ := htest
  refine ⟨tr,s,hrun,?_,fun houtlive => ?_⟩
  · intro x hx memory hact
    have hne := of_decide_eq_true (List.all_eq_true.mp hcreated x hx)
    rw [hact] at hne
    cases memory with
    | true => rfl
    | false => exact absurd rfl hne
  · obtain ⟨x,hx,hboth⟩ := List.any_eq_true.mp huses
    rw [Bool.and_eq_true] at hboth
    obtain ⟨hstate,hused⟩ := hboth
    obtain ⟨hact,hdestroyed⟩ := of_decide_eq_true hstate
    rw [houtlive x hx _ .mailbox hact hused] at hdestroyed
    cases hdestroyed

end Interceptor
end ProcessMessagePassing
