import ProcessMessagePassing.Kernel.Steps
import ProcessMessagePassing.Mailbox.Claims
import ProcessMessagePassing.Mailbox.Stopped

/-! The shape of reachable states: every task inside a mailbox is in the function it will return
from, deletion threads are inside `mailbox_destroy`, and the hash table is well formed. -/
namespace ProcessMessagePassing
open Concurrency HashTable

/-- The mailbox functions that a task can return from to the rest of its call. -/
def Cont.Fits (cs : CallState MessagePtr) : Cont → Prop
  | .claimed _ _ => cs = .claim
  | .refused => cs = .unclaim
  | .added => ∃ x, cs.adding = some (x,false)
  | .removed _ => cs.Removes
  | .putBack => ∃ x, cs.adding = some (x,true)
  | .stopped => cs = .stop stoppedFlag
  | .unclaimed _ => cs = .unclaim
  | .delivered _ => cs = .unclaim
  | .hook _ => cs = .stop (exitingFlag ||| stoppedFlag)

/-- A task inside a mailbox is in a function it can return from. -/
def Pc.Fits : Pc → Prop
  | .onMailbox _ cs k => k.Fits cs
  | _ => True

/-- The section is one of `mailbox_destroy`. -/
def CallState.Destroys : CallState MessagePtr → Prop
  | .destroy => True
  | .flush => True
  | .flushWaiting => True
  | .awaitUnclaimed => True
  | .awaitingUnclaimed => True
  | .free => True
  | _ => False

def DeletionPc.Destroys : DeletionPc → Prop
  | .destroying cs => cs.Destroys
  | _ => True

namespace Mailbox
variable {a : Actor} {sig : Bool} {m m' : Mailbox Actor MessagePtr} {cs cs' : CallState MessagePtr}
  {pr : Progress MessagePtr}

lemma Locked.stays_adding (h : Locked a sig m cs m' pr) {y : MessagePtr × Bool}
    (adding : cs.adding = some y) (stays : pr.callState = some cs') : cs'.adding = some y := by
  cases h with
  | addSleep | addAgain => cases stays; exact adding
  | flushSleep h | flushNow h => rcases h with rfl | rfl <;> cases adding
  | unclaimedSleep h | unclaimedNow h => rcases h with rfl | rfl <;> cases adding
  | removeSleep | removeAgain | destroyStop => cases adding
  | _ => cases stays

lemma Locked.stays_removes (h : Locked a sig m cs m' pr) (removes : cs.Removes)
    (stays : pr.callState = some cs') : cs'.Removes := by
  rcases removes with ⟨block,rfl⟩ | rfl
  · cases h with
    | removeSleep => cases stays; exact .inr rfl
    | removeStopped | removeEmpty | removeNow | removeSignalled => cases stays
    | flushSleep h | flushNow h => rcases h with h | h <;> cases h
    | unclaimedSleep h | unclaimedNow h => rcases h with h | h <;> cases h
  · cases h with
    | removeAgain => cases stays; exact .inr rfl
    | removeWokenStopped | removeWoken | removeInterrupted => cases stays
    | flushSleep h | flushNow h => rcases h with h | h <;> cases h
    | unclaimedSleep h | unclaimedNow h => rcases h with h | h <;> cases h

/-- A claim, an unclaim and a stop are over after one section. -/
lemma Locked.once (h : Locked a sig m cs m' pr)
    (once : cs = .claim ∨ cs = .unclaim ∨ ∃ status, cs = .stop status) : pr.callState = none := by
  cases h with
  | claimNow | unclaimNow | stopNow => rfl
  | flushSleep h | flushNow h => rcases h with rfl | rfl <;> simp at once
  | unclaimedSleep h | unclaimedNow h => rcases h with rfl | rfl <;> simp at once
  | _ => simp at once

/-- Such a section cannot fail. -/
lemma Locked.once_ok {r : Ret MessagePtr} (h : Locked a sig m cs m' (.returned r))
    (once : cs = .claim ∨ cs = .unclaim ∨ ∃ status, cs = .stop status) : r = .code .ok := by
  rcases once with rfl | rfl | ⟨status,rfl⟩ <;> cases h <;> rfl

/-- A receive that comes back with a code comes back with an error. -/
lemma Locked.remove_error {c : Code} (h : Locked a sig m cs m' (.returned (.code c)))
    (removes : cs.Removes) : c ≠ .ok := by
  rcases removes with ⟨block,rfl⟩ | rfl <;> cases h <;> nofun

lemma Locked.stays_destroys (h : Locked a sig m cs m' pr) (destroys : cs.Destroys)
    (stays : pr.callState = some cs') : cs'.Destroys := by
  cases h with
  | destroyStop | flushSleep | flushNow | unclaimedSleep | unclaimedNow => cases stays; trivial
  | freeNow => cases stays
  | _ => exact False.elim destroys

/-- `mailbox_destroy` returns from the section that frees the mailbox. -/
lemma Locked.free_of_returned {r : Ret MessagePtr} (h : Locked a sig m cs m' (.returned r))
    (destroys : cs.Destroys) : cs = .free := by
  cases h with
  | freeNow => rfl
  | _ => exact False.elim destroys

/-- Where `mailbox_destroy` goes on to the free, nobody has a claim or a signal came. -/
lemma Locked.unclaimed_of_free (h : Locked a sig m cs m' pr) (destroys : cs.Destroys)
    (next : pr.callState = some .free) : m.dereferences = 0 ∨ sig = true := by
  cases h with
  | unclaimedNow _ done => exact done
  | destroyStop | flushSleep | flushNow | unclaimedSleep | freeNow => cases next
  | _ => exact False.elim destroys

end Mailbox

/-- A task that stays inside its function stays inside the same one. -/
lemma Cont.Fits.stays {k : Cont} {a : Actor} {sig : Bool} {m m' : Mailbox Actor MessagePtr}
    {cs cs' : CallState MessagePtr} {pr : Progress MessagePtr} (fits : k.Fits cs)
    (h : Mailbox.Locked a sig m cs m' pr) (stays : pr.callState = some cs') : k.Fits cs' := by
  have hnot : ¬ (cs = .claim ∨ cs = .unclaim ∨ ∃ status, cs = .stop status) := fun ho => by
    rw [h.once ho] at stays
    cases stays
  cases k with
  | added | putBack =>
    obtain ⟨x,hx⟩ := fits
    exact ⟨x,h.stays_adding hx stays⟩
  | removed ptrs => exact h.stays_removes fits stays
  | claimed fresh c => exact absurd (.inl fits) hnot
  | refused | unclaimed code | delivered x => exact absurd (.inr (.inl fits)) hnot
  | stopped | hook group => exact absurd (.inr (.inr ⟨_,fits⟩)) hnot

namespace System
variable {hash32 : Pid → ℕ}

structure Consistent (hash32 : Pid → ℕ) (s : System) : Prop where
  fits : ∀ p, (s.pc p).Fits
  destroys : ∀ k d, s.deletions k = some d → d.pc.Destroys
  table : WellFormed hash32 s.owner s.table
  linked_lt : ∀ m, s.table.Linked m → m < s.mailboxesCreated
  deletions_lt : ∀ k, s.deletions k ≠ none → k < s.deletionsStarted

theorem consistent_initial (sig : Actor → Bool) : Consistent hash32 (initial sig) where
  fits _ := trivial
  destroys _ _ h := by cases h
  table := wellFormed_init
  linked_lt m h := by obtain ⟨b,hb⟩ := h; cases hb
  deletions_lt k h := absurd rfl h

variable {s s' : System} {act : Action}

/-- What holds of the new program counter of one task and of the old ones of all. -/
lemma forall_setPc {P : Pc → Prop} {p : Pid} {c : Pc} (h : ∀ q, P (s.pc q)) (hc : P c) (q : Pid) :
    P ((s.setPc p c).pc q) :=
  (Function.forall_update_iff _ fun _ c => P c).mpr ⟨hc,fun q _ => h q⟩ q

lemma forall_setDeletion {P : DeletionThread → Prop} {k : ℕ} {d : DeletionThread}
    (h : ∀ k d, s.deletions k = some d → P d) (hd : P d) :
    ∀ k' d', (s.setDeletion k d).deletions k' = some d' → P d' :=
  (Function.forall_update_iff _ fun _ o => ∀ d', o = some d' → P d').mpr
    ⟨fun d' hd' => by cases hd'; exact hd,fun k' _ => h k'⟩

lemma fits_begin (m : ℕ) (c : Syscall) : (c.begin m).Fits := by
  cases c with
  | recieveMessage ptrs block => exact .inl ⟨block,rfl⟩
  | sendMessage | manageMailbox => trivial

lemma fits_resume (m : ℕ) (r : Ret MessagePtr) (k : Cont) : (k.resume m r).Fits := by
  cases k with
  | claimed fresh c =>
    cases fresh with
    | true => exact fits_begin m c
    | false => trivial
  | removed ptrs =>
    cases r with
    | code c => exact rfl
    | message e => trivial
  | added | putBack | stopped => exact rfl
  | refused | unclaimed code | delivered x | hook group => trivial

lemma Consistent.stepped_fits (h : Consistent hash32 s) (hs : Stepped hash32 s act s') :
    ∀ p, (s'.pc p).Fits := by
  cases hs with
  | found | created | refused => exact forall_setPc h.fits rfl
  | @stays p _ _ _ _ _ _ _ pc locked stays =>
    have hfits := h.fits p
    rw [pc] at hfits
    exact forall_setPc h.fits (Cont.Fits.stays hfits locked.2 stays)
  | returned => exact forall_setPc h.fits (fits_resume _ _ _)
  | granted => exact forall_setPc h.fits (fits_begin _ _)
  | messageCreated => exact forall_setPc h.fits ⟨_,rfl⟩
  | messageFailed | countFault | copied | removalFound => exact forall_setPc h.fits rfl
  | countCopied =>
    refine forall_setPc h.fits ?_
    split <;> exact rfl
  | copyFault => exact forall_setPc h.fits ⟨_,rfl⟩
  | fatalSignal | signal | handle | ownerRead | stillValid | exited | unlinked | destroyStays
  | flushed | deleted => exact h.fits
  | newProcess | clone | enter | exit | exitGroup | killed | reap | valid | invalid | outOfMemory
  | destroyed | lastThread | otherThread | removalMissing | deletionStarted | deletionFailed
  | realExit | decrementLive | die => exact forall_setPc h.fits trivial

lemma Consistent.stepped_destroys (h : Consistent hash32 s) (hs : Stepped hash32 s act s') :
    ∀ k d, s'.deletions k = some d → d.pc.Destroys := by
  cases hs with
  | deletionStarted | ownerRead | exited | unlinked | deleted =>
    exact forall_setDeletion (P := fun d => d.pc.Destroys) h.destroys trivial
  | destroyStays deletion locked =>
    have hd : CallState.Destroys _ := h.destroys _ _ deletion
    exact forall_setDeletion (P := fun d => d.pc.Destroys) h.destroys
      (locked.2.stays_destroys hd rfl)
  | flushed => exact forall_setDeletion (P := fun d => d.pc.Destroys) h.destroys trivial
  | _ => exact h.destroys

/-- A section keeps the owner of its mailbox. -/
lemma owner_setMailbox {m : ℕ} {m' : Mailbox Actor MessagePtr}
    (h : m'.owner = (s.mailboxes m).owner) : (s.setMailbox m m').owner = s.owner := by
  funext n
  unfold owner
  by_cases hn : n = m
  · subst n
    rw [setMailbox_self,h]
  · rw [setMailbox_of_ne s hn]

lemma Section.owner {a : Actor} {m : ℕ} {cs : CallState MessagePtr}
    {m' : Mailbox Actor MessagePtr} {pr : Progress MessagePtr} (h : s.Section a m cs m' pr) :
    (s.setMailbox m m').owner = s.owner := owner_setMailbox h.2.owner_eq

/-- The owners that the table is read with change only where a mailbox is created. -/
lemma Consistent.owner_create (h : Consistent hash32 s) (pid : Pid) {m : ℕ}
    (linked : s.table.Linked m) :
    (s.setMailbox s.mailboxesCreated (.create pid)).owner m = s.owner m := by
  unfold owner
  rw [setMailbox_of_ne s (Nat.ne_of_lt (h.linked_lt m linked))]

lemma owner_create_self (s : System) (pid : Pid) :
    (s.setMailbox s.mailboxesCreated (.create pid)).owner s.mailboxesCreated = pid := by
  unfold owner
  rw [setMailbox_self]
  rfl

lemma Consistent.not_linked_created (h : Consistent hash32 s) :
    ¬ s.table.Linked s.mailboxesCreated := fun hl => Nat.lt_irrefl _ (h.linked_lt _ hl)

/-- The table as the creation of a mailbox finds it. -/
lemma Consistent.table_create (h : Consistent hash32 s) (pid : Pid) :
    WellFormed hash32 (s.setMailbox s.mailboxesCreated (.create pid)).owner s.table :=
  h.table.congr fun _ hl => h.owner_create pid hl

/-- The new mailbox is found under its owner. -/
lemma Consistent.get_createMailbox (h : Consistent hash32 s) (p pid : Pid) (c : Syscall) :
    (s.createMailbox hash32 p pid c).get hash32 pid = some s.mailboxesCreated :=
  get_put_self (h.table_create pid) h.not_linked_created (owner_create_self s pid)

lemma Consistent.stepped_table (h : Consistent hash32 s) (hs : Stepped hash32 s act s') :
    WellFormed hash32 s'.owner s'.table := by
  cases hs with
  | @created p o pid c =>
    exact (h.table_create pid).put_under h.not_linked_created (owner_create_self s pid)
  | unlinked => exact h.table.remove
  | stays _ locked => exact locked.owner ▸ h.table
  | returned _ locked => exact locked.owner ▸ h.table
  | destroyStays _ locked => exact locked.owner ▸ h.table
  | flushed _ locked => exact locked.owner ▸ h.table
  | deleted _ locked => exact locked.owner ▸ h.table
  | _ => exact h.table

lemma Consistent.stepped_linked_lt (h : Consistent hash32 s) (hs : Stepped hash32 s act s') :
    ∀ m, s'.table.Linked m → m < s'.mailboxesCreated := by
  cases hs with
  | @created p o pid c =>
    intro m hm
    rcases (linked_put (h.table_create pid)).mp hm with rfl | ⟨hl,-⟩
    · exact Nat.lt_succ_self _
    · exact Nat.lt_succ_of_lt (h.linked_lt m hl)
  | unlinked => exact fun m hm => h.linked_lt m ((linked_remove h.table).mp hm).1
  | _ => exact h.linked_lt

lemma setDeletion_lt {k n : ℕ} {d : DeletionThread} (hk : k < n)
    (h : ∀ k, s.deletions k ≠ none → k < n) :
    ∀ k', (s.setDeletion k d).deletions k' ≠ none → k' < n :=
  (Function.forall_update_iff _ fun k' o => o ≠ none → k' < n).mpr ⟨fun _ => hk,fun k' _ => h k'⟩

lemma Consistent.stepped_deletions_lt (h : Consistent hash32 s) (hs : Stepped hash32 s act s') :
    ∀ k, s'.deletions k ≠ none → k < s'.deletionsStarted := by
  have old : ∀ {k d}, s.deletions k = some d → k < s.deletionsStarted := fun {k d} hk =>
    h.deletions_lt k (by rw [hk]; exact Option.some_ne_none d)
  cases hs with
  | deletionStarted =>
    exact setDeletion_lt (Nat.lt_succ_self _) fun k hk => Nat.lt_succ_of_lt (h.deletions_lt k hk)
  | ownerRead deletion | exited deletion | unlinked deletion | destroyStays deletion
  | flushed deletion | deleted deletion => exact setDeletion_lt (old deletion) h.deletions_lt
  | _ => exact h.deletions_lt

theorem Consistent.stepped (h : Consistent hash32 s) (hs : Stepped hash32 s act s') :
    Consistent hash32 s' where
  fits := h.stepped_fits hs
  destroys := h.stepped_destroys hs
  table := h.stepped_table hs
  linked_lt := h.stepped_linked_lt hs
  deletions_lt := h.stepped_deletions_lt hs

theorem consistent_of_run {sig : Actor → Bool} {tr : List (System × Action)}
    (h : Run (step hash32) (initial sig) tr s) : Consistent hash32 s :=
  h.invariant (consistent_initial sig) fun _ _ _ hs ht => hs.stepped (step_stepped ht)

end System
end ProcessMessagePassing
