import ProcessMessagePassing.Concurrency.Registry
import ProcessMessagePassing.Kernel.Consistent

/-! The mailboxes of the system as a registry of shared objects: the hash table and its lock, the
claims of the calls, and the deletion threads as retirers. -/
namespace ProcessMessagePassing
open Concurrency HashTable
open Concurrency.Registry (Role Phase)

/-- What a task has to do with a mailbox. -/
def Pc.role : Pc → Role
  | .onMailbox m _ (.claimed fresh _) => .claiming m fresh
  | .onMailbox m _ .refused => .refusing m
  | .onMailbox m _ (.hook _) => .retiring m
  | .onMailbox m _ _ => .holding m
  | .checkExiting m _ => .checking m
  | .createMessage m _ _ => .holding m
  | .copyCount m _ _ => .holding m
  | .copyToUser m _ _ => .holding m
  | .startDeletion m _ => .scheduled m
  | _ => .idle

/-- How far a deletion thread has come. -/
def DeletionPc.phase : DeletionPc → Phase Pid
  | .start => .started
  | .waitExit pid => .waiting pid
  | .unlink pid => .waiting pid
  | .destroying .free => .freeing
  | .destroying _ => .draining
  | .done => .done

def DeletionThread.retirer (d : DeletionThread) : ℕ × Phase Pid := (d.mailbox,d.pc.phase)

namespace System

/-- The registry that a state of the system stands for. -/
def registry (s : System) : Registry.State Pid Pid where
  key := s.owner
  created := s.mailboxesCreated
  linked := s.table.Linked
  lock := s.tableLock
  references m := (s.mailboxes m).dereferences
  frees m := (s.mailboxes m).frees
  role p := (s.pc p).role
  retirer k := (s.deletions k).map DeletionThread.retirer

/-- The action is a `remove_mailbox_for_pid` that finds the mailbox in the table. -/
def RemovalFinds (hash32 : Pid → ℕ) (s : System) (act : Action) (m : ℕ) : Prop :=
  ∃ p o group, act = .run p o ∧ s.pc p = .removeLookup group ∧
    s.get hash32 (s.processes.tgid p) = some m

variable {hash32 : Pid → ℕ} {s s' : System} {act : Action}

lemma registry_setPc (s : System) (p : Pid) (c : Pc) :
    (s.setPc p c).registry = s.registry.setRole p c.role := by
  ext1
  case role =>
    funext q
    exact Function.apply_update (fun _ => Pc.role) s.pc p c q
  all_goals rfl

lemma registry_setDeletion (s : System) (k : ℕ) (d : DeletionThread) :
    (s.setDeletion k d).registry = s.registry.setRetirer k d.retirer := by
  ext1
  case retirer =>
    funext n
    exact Function.apply_update (fun _ => Option.map DeletionThread.retirer) s.deletions k _ n
  all_goals rfl

lemma registry_setMailbox (s : System) (m : ℕ) (x : Mailbox Actor MessagePtr) :
    (s.setMailbox m x).registry = { s.registry with
      key := Function.update s.registry.key m x.owner
      references := Function.update s.registry.references m x.dereferences
      frees := Function.update s.registry.frees m x.frees } := by
  ext1
  case key => funext n; exact Function.apply_update (fun _ => Mailbox.owner) s.mailboxes m x n
  case references =>
    funext n
    exact Function.apply_update (fun _ => Mailbox.dereferences) s.mailboxes m x n
  case frees => funext n; exact Function.apply_update (fun _ => Mailbox.frees) s.mailboxes m x n
  all_goals rfl

/-- What a section does to the registry: it moves one count of references and one of frees. -/
lemma Section.registry {a : Actor} {m : ℕ} {cs : CallState MessagePtr}
    {m' : Mailbox Actor MessagePtr} {pr : Progress MessagePtr} (h : s.Section a m cs m' pr) :
    (s.setMailbox m m').registry = { s.registry with
      references := Function.update s.registry.references m
        (s.registry.references m + Mailbox.claims cs)
      frees := Function.update s.registry.frees m (s.registry.frees m + Mailbox.freeing cs) } := by
  rw [registry_setMailbox,h.2.owner_eq,h.2.dereferences_eq,h.2.frees_eq]
  ext1
  case key => exact Function.update_eq_self m s.registry.key
  all_goals rfl

/-- A section that neither claims, unclaims nor frees. -/
lemma Section.registry_eq {a : Actor} {m : ℕ} {cs : CallState MessagePtr}
    {m' : Mailbox Actor MessagePtr} {pr : Progress MessagePtr} (h : s.Section a m cs m' pr)
    (claims : Mailbox.claims cs = 0) (freeing : Mailbox.freeing cs = 0) :
    (s.setMailbox m m').registry = s.registry := by
  rw [h.registry,claims,freeing,Int.add_zero,Nat.add_zero]
  ext1
  case references => exact Function.update_eq_self m s.registry.references
  case frees => exact Function.update_eq_self m s.registry.frees
  all_goals rfl

/-- A section that moves the references only. -/
lemma Section.registry_references {a : Actor} {m : ℕ} {cs : CallState MessagePtr}
    {m' : Mailbox Actor MessagePtr} {pr : Progress MessagePtr} (h : s.Section a m cs m' pr)
    (freeing : Mailbox.freeing cs = 0) :
    (s.setMailbox m m').registry = { s.registry with
      references := Function.update s.registry.references m
        (s.registry.references m + Mailbox.claims cs) } := by
  rw [h.registry,freeing,Nat.add_zero]
  ext1
  case frees => exact Function.update_eq_self m s.registry.frees
  all_goals rfl

lemma setRole_eq {t : Registry.State Pid Pid} {p : Pid} {r : Role} (h : t.role p = r) :
    t.setRole p r = t := by
  subst h
  ext1
  case role => exact Function.update_eq_self p t.role
  all_goals rfl

lemma setRetirer_eq {t : Registry.State Pid Pid} {k : ℕ} {x : ℕ × Phase Pid}
    (h : t.retirer k = some x) : t.setRetirer k x = t := by
  ext1
  case retirer => exact Function.update_eq_self_iff.mpr h.symm
  all_goals rfl

lemma role_begin (m : ℕ) (c : Syscall) : (c.begin m).role = .holding m := by cases c <;> rfl

/-- A move of one task that changes nothing of the registry but keeps its own role. -/
lemma registry_setPc_eq {p : Pid} {c : Pc} (h : (s.pc p).role = c.role) :
    (s.setPc p c).registry = s.registry := by
  rw [registry_setPc]
  exact setRole_eq h

lemma claims_adding {cs : CallState MessagePtr} (h : ∃ x head, cs.adding = some (x,head)) :
    Mailbox.claims cs = 0 ∧ Mailbox.freeing cs = 0 := by
  obtain ⟨x,head,h⟩ := h
  cases cs with
  | addMessage | addWaiting => exact ⟨rfl,rfl⟩
  | _ => cases h

lemma claims_removes {cs : CallState MessagePtr} (h : cs.Removes) :
    Mailbox.claims cs = 0 ∧ Mailbox.freeing cs = 0 := by
  rcases h with ⟨block,rfl⟩ | rfl <;> exact ⟨rfl,rfl⟩

lemma claims_destroys {cs : CallState MessagePtr} (h : cs.Destroys) :
    Mailbox.claims cs = 0 := by cases cs <;> first | rfl | exact False.elim h

lemma freeing_eq_zero {cs : CallState MessagePtr} (h : cs ≠ .free) : Mailbox.freeing cs = 0 := by
  cases cs <;> first | rfl | exact absurd rfl h

lemma phase_draining {cs : CallState MessagePtr} (h : cs ≠ .free) :
    (DeletionPc.destroying cs).phase = .draining := by
  cases cs <;> first | rfl | exact absurd rfl h

/-- The task stays in its function: the registry does not change. -/
lemma registry_stays {p : Pid} {m : ℕ} {cs cs' : CallState MessagePtr} {k : Cont}
    {m' : Mailbox Actor MessagePtr} {pr : Progress MessagePtr} (fits : k.Fits cs)
    (pc : s.pc p = .onMailbox m cs k) (locked : s.Section (.task p) m cs m' pr)
    (stays : pr.callState = some cs') :
    ((s.setMailbox m m').setPc p (.onMailbox m cs' k)).registry = s.registry := by
  have hzero : Mailbox.claims cs = 0 ∧ Mailbox.freeing cs = 0 := by
    have hnot : ¬ (cs = .claim ∨ cs = .unclaim ∨ ∃ status, cs = .stop status) := fun ho => by
      rw [locked.2.once ho] at stays
      cases stays
    cases k with
    | added | putBack => exact claims_adding ⟨_,_,fits.choose_spec⟩
    | removed => exact claims_removes fits
    | claimed => exact absurd (.inl fits) hnot
    | refused | unclaimed | delivered => exact absurd (.inr (.inl fits)) hnot
    | stopped | hook => exact absurd (.inr (.inr ⟨_,fits⟩)) hnot
  have hrole : ((s.setMailbox m m').pc p).role = (Pc.onMailbox m cs' k).role := by
    change (s.pc p).role = _
    rw [pc]
    cases k <;> rfl
  rw [registry_setPc_eq hrole]
  exact locked.registry_eq hzero.1 hzero.2

variable {patient : Prop} {mayRetire : Registry.State Pid Pid → ℕ → Prop}

/-- The task comes back from its function. -/
lemma registry_returned {p : Pid} {m : ℕ} {cs : CallState MessagePtr} {k : Cont}
    {m' : Mailbox Actor MessagePtr} {r : Ret MessagePtr} (fits : k.Fits cs)
    (pc : s.pc p = .onMailbox m cs k) (locked : s.Section (.task p) m cs m' (.returned r)) :
    (s.returnFrom p m k m' r).registry = s.registry ∨
      Registry.Step patient mayRetire s.registry (s.returnFrom p m k m' r).registry := by
  have hrole : s.registry.role p = (Pc.onMailbox m cs k).role := congrArg Pc.role pc
  -- the registry after the section, the release of the lock and the move of the task
  have hafter : (s.returnFrom p m k m' r).registry =
      ({ (s.setMailbox m m').registry with
        lock := if k.unlocks then none else s.tableLock }).setRole p (k.resume m r).role :=
    registry_setPc _ _ _
  rw [hafter]
  cases k with
  | claimed fresh c =>
    cases fits
    rw [locked.registry_references rfl]
    right
    cases fresh with
    | true =>
      rw [show (Cont.resume m r (.claimed true c)).role = .holding m from role_begin m c]
      exact .claim hrole
    | false => exact .reclaim hrole
  | refused =>
    cases fits
    rw [locked.registry_references rfl]
    exact .inr (.dismiss hrole)
  | unclaimed | delivered =>
    cases fits
    rw [locked.registry_references rfl]
    exact .inr (.release hrole)
  | hook group =>
    cases fits
    rw [locked.registry_eq rfl rfl]
    exact .inr (.schedule hrole)
  | added | putBack =>
    have hzero := claims_adding ⟨_,_,fits.choose_spec⟩
    rw [locked.registry_eq hzero.1 hzero.2]
    exact .inl (setRole_eq hrole)
  | removed ptrs =>
    rw [locked.registry_eq (claims_removes fits).1 (claims_removes fits).2]
    left
    cases r <;> exact setRole_eq hrole
  | stopped =>
    cases fits
    rw [locked.registry_eq rfl rfl]
    exact .inl (setRole_eq hrole)

lemma registry_created (h : Consistent hash32 s) {p pid : Pid} {c : Syscall}
    (pc : s.pc p = .lookup pid c) (unlocked : s.tableLock = none)
    (missing : s.get hash32 pid = none) :
    Registry.Step patient mayRetire s.registry (s.createMailbox hash32 p pid c).registry := by
  have hafter : (s.createMailbox hash32 p pid c).registry =
      ({ (s.setMailbox s.mailboxesCreated (.create pid)).registry with
        created := s.mailboxesCreated + 1
        linked := (hashtablePut hash32 (s.setMailbox s.mailboxesCreated (.create pid)).owner
          s.table pid s.mailboxesCreated).Linked
        lock := some p }).setRole p (.claiming s.mailboxesCreated true) := registry_setPc _ _ _
  have hlinked : (hashtablePut hash32 (s.setMailbox s.mailboxesCreated (.create pid)).owner
      s.table pid s.mailboxesCreated).Linked =
        fun n => n = s.registry.created ∨ s.registry.linked n := by
    funext n
    apply propext
    rw [linked_put (h.table_create pid)]
    refine or_congr_right ⟨And.left,fun hl => ⟨hl,?_⟩⟩
    rw [h.owner_create pid hl]
    exact owner_ne_of_get h.table missing hl
  rw [hafter,hlinked,registry_setMailbox]
  have hidle : s.registry.role p = .idle := congrArg Pc.role pc
  exact .create hidle unlocked fun n hl => owner_ne_of_get h.table missing hl

lemma registry_unlinked (h : Consistent hash32 s) {k m : ℕ} {pid : Pid}
    (deletion : s.deletions k = some ⟨m,.unlink pid⟩) (unlocked : s.tableLock = none) :
    Registry.Step patient mayRetire s.registry
      ({ s with table := hashtableRemove hash32 s.owner s.table pid }.setDeletion k
        ⟨m,.destroying .destroy⟩).registry := by
  rw [registry_setDeletion]
  have hlinked : (hashtableRemove hash32 s.owner s.table pid).Linked =
      fun n => s.registry.linked n ∧ s.registry.key n ≠ pid := by
    funext n
    exact propext (linked_remove h.table)
  have hretirer : s.registry.retirer k = some (m,.waiting pid) :=
    congrArg (Option.map DeletionThread.retirer) deletion
  change Registry.Step patient mayRetire s.registry
    (Registry.State.setRetirer { s.registry with
      linked := (hashtableRemove hash32 s.owner s.table pid).Linked } k _)
  rw [hlinked]
  exact .unlink hretirer unlocked

/-- A section of `mailbox_destroy` that goes on inside it. -/
lemma registry_destroyStays {k m : ℕ} {cs cs' : CallState MessagePtr}
    {m' : Mailbox Actor MessagePtr} {pr : Progress MessagePtr} (destroys : cs.Destroys)
    (quiet : patient → s.signalPending (.kthread k) = false)
    (deletion : s.deletions k = some ⟨m,.destroying cs⟩)
    (locked : s.Section (.kthread k) m cs m' pr) (stays : pr.callState = some cs') :
    ((s.setMailbox m m').setDeletion k ⟨m,.destroying cs'⟩).registry = s.registry ∨
      Registry.Step patient mayRetire s.registry
        ((s.setMailbox m m').setDeletion k ⟨m,.destroying cs'⟩).registry := by
  have hnot : cs ≠ .free := by
    rintro rfl
    obtain ⟨-,hl⟩ := locked
    cases hl with
    | flushSleep h | flushNow h => rcases h with h | h <;> cases h
    | unclaimedSleep h | unclaimedNow h => rcases h with h | h <;> cases h
    | freeNow => cases stays
  have hretirer : s.registry.retirer k = some (m,.draining) := by
    rw [← phase_draining hnot]
    exact congrArg (Option.map DeletionThread.retirer) deletion
  rw [registry_setDeletion,locked.registry_eq (claims_destroys destroys) (freeing_eq_zero hnot)]
  by_cases hfree : cs' = .free
  · subst cs'
    have hzero : patient → (s.mailboxes m).dereferences = 0 := by
      intro hpatient
      rcases locked.2.unclaimed_of_free destroys stays with hz | hs
      · exact hz
      · rw [quiet hpatient] at hs
        cases hs
    exact .inr (.drained hretirer hzero)
  · left
    apply setRetirer_eq
    rw [hretirer]
    exact congrArg (fun ph => some (m,ph)) (phase_draining hfree).symm

lemma registry_deleted {k m : ℕ} {cs : CallState MessagePtr} {m' : Mailbox Actor MessagePtr}
    {r : Ret MessagePtr} (destroys : cs.Destroys)
    (deletion : s.deletions k = some ⟨m,.destroying cs⟩)
    (locked : s.Section (.kthread k) m cs m' (.returned r)) :
    Registry.Step patient mayRetire s.registry
      ((s.setMailbox m m').setDeletion k ⟨m,.done⟩).registry := by
  obtain rfl := locked.2.free_of_returned destroys
  have hretirer : s.registry.retirer k = some (m,.freeing) :=
    congrArg (Option.map DeletionThread.retirer) deletion
  have hafter : (s.setMailbox m m').registry = { s.registry with
      frees := Function.update s.registry.frees m (s.registry.frees m + 1) } := by
    rw [locked.registry]
    ext1
    case references =>
      rw [show Mailbox.claims (CallState.free : CallState MessagePtr) = 0 from rfl,Int.add_zero]
      exact Function.update_eq_self m s.registry.references
    all_goals rfl
  rw [registry_setDeletion,hafter]
  exact .free hretirer

/-- Every step of the system is one step of the registry or none. The deletion threads are
patient as long as they have no signal pending. -/
theorem registry_stepped (h : Consistent hash32 s)
    (quiet : patient → ∀ k, s.signalPending (.kthread k) = false) (hs : Stepped hash32 s act s')
    (may : ∀ m, RemovalFinds hash32 s act m → mayRetire s.registry m) :
    s'.registry = s.registry ∨ Registry.Step patient mayRetire s.registry s'.registry := by
  cases hs with
  | signal | handle | stillValid | fatalSignal => exact .inl rfl
  | newProcess role | clone _ _ role | enter role | exit role | exitGroup role | killed role
  | reap role | valid role | invalid role | outOfMemory role | messageCreated role
  | messageFailed role | countFault role | copied role | copyFault role | destroyed role
  | lastThread role | otherThread role | removalMissing role | realExit role
  | decrementLive role | die role =>
    have hrole := congrArg Pc.role role
    exact .inl (registry_setPc_eq hrole)
  | countCopied role =>
    have hrole := congrArg Pc.role role
    refine .inl (registry_setPc_eq (hrole.trans ?_))
    split <;> rfl
  | found role unlocked found =>
    rw [registry_setPc]
    exact .inr (.find (congrArg Pc.role role) unlocked (linked_of_get found).1)
  | created role unlocked missing => exact .inr (registry_created h role unlocked missing)
  | @stays p _ _ _ _ _ _ _ pc locked stays =>
    have hfits := h.fits p
    rw [pc] at hfits
    exact .inl (registry_stays hfits pc locked stays)
  | @returned p _ _ _ _ _ _ pc locked =>
    have hfits := h.fits p
    rw [pc] at hfits
    exact registry_returned hfits pc locked
  | refused role =>
    rw [registry_setPc]
    exact .inr (.refuse (congrArg Pc.role role))
  | granted role =>
    rw [registry_setPc,role_begin]
    exact .inr (.grant (congrArg Pc.role role))
  | @removalFound p o group m role unlocked found =>
    rw [registry_setPc]
    exact .inr (.retire (congrArg Pc.role role) unlocked (linked_of_get found).1
      (may m ⟨p,o,group,rfl,role,found⟩))
  | @deletionStarted p o m group role =>
    have hnone : s.registry.retirer s.deletionsStarted = none := by
      cases hd : s.deletions s.deletionsStarted with
      | none => exact congrArg (Option.map DeletionThread.retirer) hd
      | some d =>
        have hlt := h.deletions_lt s.deletionsStarted (by rw [hd]; exact Option.some_ne_none d)
        exact absurd hlt (Nat.lt_irrefl _)
    rw [registry_setPc]
    have hrun : (s.kthreadRun m).registry = s.registry.setRetirer s.deletionsStarted
      (m,.started) := registry_setDeletion s s.deletionsStarted ⟨m,.start⟩
    rw [hrun]
    exact .inr (.start (congrArg Pc.role role) hnone)
  | deletionFailed role =>
    rw [registry_setPc]
    exact .inr (.abandon (congrArg Pc.role role))
  | @ownerRead k m o pid deletion read =>
    rw [registry_setDeletion]
    exact .inr (.read (congrArg (Option.map DeletionThread.retirer) deletion) read)
  | @exited k m o pid deletion invalid =>
    rw [registry_setDeletion]
    exact .inl (setRetirer_eq (congrArg (Option.map DeletionThread.retirer) deletion))
  | unlinked deletion unlocked => exact .inr (registry_unlinked h deletion unlocked)
  | @destroyStays k m o cs m' cs' deletion locked =>
    exact registry_destroyStays (h.destroys k _ deletion) (fun hp => quiet hp k) deletion locked rfl
  | @flushed k m o cs m' xs deletion locked =>
    exact registry_destroyStays (h.destroys k _ deletion) (fun hp => quiet hp k) deletion locked rfl
  | @deleted k m o cs m' r deletion locked =>
    exact .inr (registry_deleted (h.destroys k _ deletion) deletion locked)

end System
end ProcessMessagePassing
