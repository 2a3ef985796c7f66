import ProcessMessagePassing.Concurrency.Custody
import ProcessMessagePassing.Kernel.Ownership

/-! Every message object has one place: the list of a mailbox, or a call in progress. A call whose
add is refused loses its message. -/
namespace ProcessMessagePassing
open Concurrency HashTable

/-- Where a message object can be. -/
inductive Place
  | mailbox (m : ℕ)
  | call (p : Pid)
  deriving DecidableEq, Repr

lemma inCall_of_holding {c : Pc} (h : c.holding ≠ none) (fits : c.Fits) : c.inCall = true := by
  cases c with
  | onMailbox m cs k =>
    cases k with
    | hook group =>
      cases fits
      exact absurd rfl h
    | _ => rfl
  | copyToUser | destroyMessage => rfl
  | _ => exact absurd rfl h

namespace System
variable {hash32 : Pid → ℕ} {sig : Actor → Bool} {s s' : System} {act : Action}
  {tr : List (System × Action)}

/-- `message_create` has allocated the object and nobody has freed it. -/
def LiveMessage (s : System) (n : ℕ) : Prop := n < s.messages.created ∧ s.messages.frees n = 0

/-- The place has the message: it is on the list of a mailbox that has not been freed, or a call in
progress has it in its hands. -/
def Has (s : System) (n : ℕ) : Place → Prop
  | .mailbox m => (s.mailboxes m).frees = 0 ∧ .object n ∈ (s.mailboxes m).messages
  | .call p => (s.pc p).inCall = true ∧ (s.pc p).holding = some (.object n)

/-- Every live message has one place, every message is freed once at most, and when no call is in
progress the live messages are the queued ones. -/
structure MessagesOwned (s : System) : Prop where
  placed : ∀ n, s.LiveMessage n ↔ ∃! pl, s.Has n pl
  queuedOnce : ∀ m n, (s.mailboxes m).messages.count (.object n) ≤ 1
  freedOnce : ∀ n, s.messages.frees n ≤ 1
  idle : (∀ p, (s.pc p).inCall = false) → ∀ n, s.LiveMessage n ↔
    ∃ m, (s.mailboxes m).frees = 0 ∧ .object n ∈ (s.mailboxes m).messages

/-- The message objects and their places. -/
def custody (s : System) : Custody.State Place ℕ where
  created n := n < s.messages.created
  frees := s.messages.frees
  has
    | .mailbox m, n => .object n ∈ s.lists m
    | .call p, n => s.holding p = some (.object n)

/-- No message is twice on a list. -/
def ListsOnce (s : System) : Prop := ∀ m n, (s.lists m).count (.object n) ≤ 1

/-- A step that moves no message object changes nothing for the objects. -/
lemma custody_eq (cache : s'.custody.created = s.custody.created ∧ s'.custody.frees = s.custody.frees)
    (lists : ∀ m n, .object n ∈ s'.lists m ↔ .object n ∈ s.lists m)
    (holding : ∀ p n, s'.holding p = some (.object n) ↔ s.holding p = some (.object n)) :
    s'.custody = s.custody := by
  apply Custody.State.ext cache.1 cache.2
  funext pl n
  apply propext
  cases pl with
  | mailbox m => exact lists m n
  | call p => exact holding p n

lemma custody_cache (h : s'.messages = s.messages) :
    s'.custody.created = s.custody.created ∧ s'.custody.frees = s.custody.frees := by
  constructor
  · funext n
    change (n < s'.messages.created) = (n < s.messages.created)
    rw [h]
  · exact congrArg MessageCache.frees h

variable {p : Pid} {m n : ℕ}

/-- A call that had nothing is given something. -/
lemma holding_given (free : s.holding p = none) (x : MessagePtr) (q : Pid) (y : MessagePtr) :
    Function.update s.holding p (some x) q = some y ↔ s.holding q = some y ∨ q = p ∧ y = x := by
  by_cases hq : q = p
  · subst q
    rw [Function.update_self,free]
    simp [eq_comm]
  · rw [Function.update_of_ne hq]
    simp [hq]

section Steps
variable (inv : Custody.Invariant s.custody)
include inv

/-- A message that a call has is on no list. -/
lemma not_queued (holds : s.holding p = some (.object n)) (m : ℕ) : .object n ∉ s.lists m := by
  intro hm
  have heq := inv.unique (.call p) (.mailbox m) n holds hm
  cases heq

/-- A call gives its message away. -/
lemma holding_given_away (holds : s.holding p = some (.object n)) (q : Pid) (y : ℕ) :
    Function.update s.holding p none q = some (.object y) ↔
      s.holding q = some (.object y) ∧ y ≠ n := by
  by_cases hq : q = p
  · subst q
    rw [Function.update_self,holds]
    simp [eq_comm]
  · rw [Function.update_of_ne hq]
    have hne : s.holding q = some (.object y) → y ≠ n := by
      rintro hy rfl
      have heq := inv.unique (.call q) (.call p) y hy holds
      exact hq (Place.call.inj heq)
    exact ⟨fun hy => ⟨hy,hne hy⟩,And.left⟩

lemma queued_given_away (holds : s.holding p = some (.object n)) (m y : ℕ) :
    .object y ∈ s.lists m ↔ .object y ∈ s.lists m ∧ y ≠ n := by
  refine ⟨fun hy => ⟨hy,?_⟩,And.left⟩
  rintro rfl
  exact not_queued inv holds m hy

/-- What is where when a call has given its message away and no list has changed. -/
lemma has_given_away (holds : s.holding p = some (.object n)) (lists : s'.lists = s.lists)
    (holding : s'.holding = Function.update s.holding p none) (r : Place) (y : ℕ) :
    s'.custody.has r y ↔ s.custody.has r y ∧ y ≠ n := by
  cases r with
  | mailbox m =>
    change .object y ∈ s'.lists m ↔ _
    rw [lists]
    exact queued_given_away inv holds m y
  | call q =>
    change s'.holding q = _ ↔ _
    rw [holding]
    exact holding_given_away inv holds q y

omit inv in
/-- Giving away what is no object changes nothing for the objects. -/
lemma holding_of_listHead {k : ℕ} (holds : s.holding p = some (.listHead k))
    (holding : s'.holding = Function.update s.holding p none) (q : Pid) (y : ℕ) :
    s'.holding q = some (.object y) ↔ s.holding q = some (.object y) := by
  rw [holding]
  by_cases hq : q = p
  · subst q
    rw [Function.update_self,holds]
    simp
  · rw [Function.update_of_ne hq]

lemma custody_refused (holds : s.holding p = some (.object n)) (cache : s'.messages = s.messages)
    (lists : s'.lists = s.lists) (holding : s'.holding = Function.update s.holding p none) :
    Custody.Drop s.custody s'.custody (.call p) n where
  source := holds
  created := (custody_cache cache).1
  frees := (custody_cache cache).2
  has := has_given_away inv holds lists holding

lemma custody_destroyed (holds : s.holding p = some (.object n))
    (cache : s'.messages = s.messages.destroy (.object n)) (lists : s'.lists = s.lists)
    (holding : s'.holding = Function.update s.holding p none) :
    Custody.Step s.custody s'.custody := by
  have hfrees : s'.custody.frees = Function.update s.messages.frees n (s.messages.frees n + 1) :=
    congrArg MessageCache.frees cache
  have hsource : ∀ y, y = n → s.custody.has (.call p) y := by
    rintro y rfl
    exact holds
  refine .free hsource ?_ ?_ ?_ ?_
  · funext y
    change (y < s'.messages.created) = (y < s.messages.created)
    rw [cache,MessageCache.created_destroy]
  · rintro y rfl
    rw [hfrees,Function.update_self]
    rfl
  · intro y hy
    rw [hfrees,Function.update_of_ne hy]
    rfl
  · exact has_given_away inv holds lists holding

lemma custody_added {head : Bool} (holds : s.holding p = some (.object n))
    (cache : s'.messages = s.messages)
    (lists : s'.lists = Function.update s.lists m
      (if head then .object n :: s.lists m else s.lists m ++ [.object n]))
    (holding : s'.holding = Function.update s.holding p none) :
    Custody.Step s.custody s'.custody := by
  refine .move (p := .call p) (q := .mailbox m) (x := n) holds (custody_cache cache).1
    (custody_cache cache).2 ?_
  intro r y
  have haway := queued_given_away inv holds
  cases r with
  | mailbox k =>
    change .object y ∈ s'.lists k ↔ _ ∨ .object y ∈ s.lists k ∧ y ≠ n
    rw [lists,← haway k y]
    by_cases hk : k = m
    · subst k
      rw [Function.update_self]
      cases head <;> simp [or_comm]
    · rw [Function.update_of_ne hk]
      simp [hk]
  | call q =>
    change s'.holding q = _ ↔ _ ∨ s.holding q = _ ∧ y ≠ n
    rw [holding,holding_given_away inv holds q y]
    simp

lemma custody_taken (once : s.ListsOnce) (cache : s'.messages = s.messages)
    (lists : s'.lists = Function.update s.lists m (s.lists m).tail)
    (free : s.holding p = none)
    (holding : s'.holding = Function.update s.holding p
      (some (.ofEntry m (listEntry (s.lists m))))) :
    s'.custody = s.custody ∨ Custody.Step s.custody s'.custody := by
  -- only an object that comes off the list moves
  have hsame : (∀ y, .object y ∈ (s.lists m).tail ↔ .object y ∈ s.lists m) →
      (∀ y, .object y ≠ MessagePtr.ofEntry m (listEntry (s.lists m))) → s'.custody = s.custody := by
    intro htail hentry
    apply custody_eq (custody_cache cache)
    · intro k y
      rw [lists]
      by_cases hk : k = m
      · subst k
        rw [Function.update_self]
        exact htail y
      · rw [Function.update_of_ne hk]
    · intro q y
      rw [holding,holding_given free]
      simp [hentry y]
  cases hlist : s.lists m with
  | nil =>
    left
    apply hsame
    · intro y
      rw [hlist]
      rfl
    · intro y
      rw [hlist]
      nofun
  | cons x rest =>
    cases x with
    | listHead k =>
      left
      apply hsame
      · intro y
        rw [hlist]
        simp
      · intro y
        rw [hlist]
        nofun
    | object n =>
      right
      have hnew : .object n ∉ rest := by
        intro hmem
        have honce := once m n
        rw [hlist,List.count_cons_self] at honce
        have hpos := List.count_pos_iff.mpr hmem
        omega
      refine .move (p := .mailbox m) (q := .call p) (x := n) ?_ (custody_cache cache).1
        (custody_cache cache).2 ?_
      · change .object n ∈ s.lists m
        rw [hlist]
        exact List.mem_cons_self
      · intro r y
        cases r with
        | mailbox k =>
          change .object y ∈ s'.lists k ↔ _ ∨ .object y ∈ s.lists k ∧ y ≠ n
          rw [lists]
          by_cases hk : k = m
          · subst k
            rw [Function.update_self,hlist,List.tail_cons]
            have hne : .object y ∈ rest → y ≠ n := by
              rintro hy rfl
              exact hnew hy
            by_cases hy : y = n
            · subst y
              simp [hnew]
            · simp [hy]
          · rw [Function.update_of_ne hk]
            have hne : .object y ∈ s.lists k → y ≠ n := by
              rintro hy rfl
              have hm : .object y ∈ s.lists m := by rw [hlist]; exact List.mem_cons_self
              have heq := inv.unique (.mailbox k) (.mailbox m) y hy hm
              exact hk (Place.mailbox.inj heq)
            constructor
            · exact fun hy => .inr ⟨hy,hne hy⟩
            · rintro (⟨hq,-⟩ | ⟨hy,-⟩)
              · cases hq
              · exact hy
        | call q =>
          change s'.holding q = _ ↔ _ ∨ s.holding q = _ ∧ y ≠ n
          rw [holding,holding_given free,hlist]
          have hne : s.holding q = some (.object y) → y ≠ n := by
            rintro hy rfl
            exact not_queued inv hy m (by rw [hlist]; exact List.mem_cons_self)
          constructor
          · rintro (hy | ⟨rfl,hy⟩)
            · exact .inr ⟨hy,hne hy⟩
            · exact .inl ⟨rfl,MessagePtr.object.inj hy⟩
          · rintro (⟨hq,rfl⟩ | ⟨hy,-⟩)
            · exact .inr ⟨Place.call.inj hq,rfl⟩
            · exact .inl hy

lemma custody_flushed (once : s.ListsOnce)
    (cache : s'.messages = (s.lists m).foldl MessageCache.destroy s.messages)
    (lists : s'.lists = Function.update s.lists m []) (holding : s'.holding = s.holding) :
    Custody.Step s.custody s'.custody := by
  have hfrees : ∀ y, s'.messages.frees y = s.messages.frees y + (s.lists m).count (.object y) := by
    intro y
    rw [cache,MessageCache.frees_destroys]
  have hsource : ∀ y, .object y ∈ s.lists m → s.custody.has (.mailbox m) y := fun y hy => hy
  refine .free hsource ?_ ?_ ?_ ?_
  · funext y
    change (y < s'.messages.created) = (y < s.messages.created)
    rw [cache,MessageCache.created_destroys]
  · intro y hy
    have hpos := List.count_pos_iff.mpr hy
    have honce := once m y
    have hy' := hfrees y
    change s'.messages.frees y = s.messages.frees y + 1
    omega
  · intro y hy
    have hzero := List.count_eq_zero.mpr hy
    have hy' := hfrees y
    change s'.messages.frees y = s.messages.frees y
    omega
  · intro r y
    cases r with
    | mailbox k =>
      change .object y ∈ s'.lists k ↔ .object y ∈ s.lists k ∧ _
      rw [lists]
      by_cases hk : k = m
      · subst k
        simp
      · rw [Function.update_of_ne hk]
        refine ⟨fun hy => ⟨hy,fun hm => ?_⟩,And.left⟩
        have heq := inv.unique (.mailbox k) (.mailbox m) y hy hm
        exact hk (Place.mailbox.inj heq)
    | call q =>
      change s'.holding q = _ ↔ s.holding q = _ ∧ _
      rw [holding]
      exact ⟨fun hy => ⟨hy,not_queued inv hy m⟩,And.left⟩

omit inv in
lemma custody_created {sender : Pid} {len : ℤ} {o : Oracle} {x : ℕ}
    (made : s.messages.create sender len o = (s'.messages,.ok x)) (free : s.holding p = none)
    (lists : s'.lists = s.lists)
    (holding : s'.holding = Function.update s.holding p (some (.object x))) :
    Custody.Step s.custody s'.custody := by
  obtain ⟨-,-,-,rfl,hcache⟩ := MessageCache.create_eq_ok made
  refine .create (p := .call p) (x := s.messages.created) (Nat.lt_irrefl _) ?_ ?_ ?_
  · intro y
    change y < s'.messages.created ↔ y < s.messages.created ∨ _
    rw [hcache]
    exact Nat.lt_succ_iff_lt_or_eq
  · change s'.messages.frees = s.messages.frees
    rw [hcache]
  · intro r y
    cases r with
    | mailbox k =>
      change .object y ∈ s'.lists k ↔ .object y ∈ s.lists k ∨ _
      rw [lists]
      simp
    | call q =>
      change s'.holding q = _ ↔ s.holding q = _ ∨ _
      rw [holding,holding_given free]
      simp

omit inv in
lemma custody_failed {sender : Pid} {len : ℤ} {o : Oracle} {code : Code}
    (made : s.messages.create sender len o = (s'.messages,.error code)) (lists : s'.lists = s.lists)
    (holding : s'.holding = s.holding) :
    s'.custody = s.custody ∨ Custody.Step s.custody s'.custody := by
  rcases MessageCache.create_eq_error made with he | ⟨hcreated,hfrees⟩
  · left
    apply custody_eq (custody_cache he)
    · intro m n
      rw [lists]
    · intro p n
      rw [holding]
  · right
    refine .discard (x := s.messages.created) (Nat.lt_irrefl _) ?_ ?_ ?_ ?_
    · intro y
      change y < s'.messages.created ↔ y < s.messages.created ∨ _
      rw [hcreated]
      exact Nat.lt_succ_iff_lt_or_eq
    · change s'.messages.frees _ = _
      rw [hfrees,Function.update_self]
      rfl
    · intro y hy
      change s'.messages.frees y = _
      rw [hfrees,Function.update_of_ne hy]
      rfl
    · funext r y
      cases r with
      | mailbox k => exact congrArg (fun l : ℕ → List MessagePtr => MessagePtr.object y ∈ l k) lists
      | call q => exact congrArg (fun f : Pid → Option MessagePtr => f q = some (.object y)) holding

/-- An object is lost in the steps that refuse it, and in no other. -/
lemma MessageStep.custody (once : s.ListsOnce) (h : MessageStep s act s') :
    (∀ n, s.refuses act ≠ some (.object n)) ∧
        (s'.custody = s.custody ∨ Custody.Step s.custody s'.custody) ∨
      ∃ p n, s.refuses act = some (.object n) ∧
        Custody.Drop s.custody s'.custody (.call p) n := by
  cases h with
  | same cache lists holding accepts =>
    refine .inl ⟨by rw [accepts]; nofun,.inl ?_⟩
    apply custody_eq (custody_cache cache)
    · intro m n
      rw [lists]
    · intro p n
      rw [holding]
  | created action pc made lists holding accepts =>
    have hfree : s.holding _ = none := congrArg Pc.holding pc
    exact .inl ⟨by rw [accepts]; nofun,.inr (custody_created made hfree lists holding)⟩
  | failed action pc made lists holding accepts =>
    exact .inl ⟨by rw [accepts]; nofun,custody_failed made lists holding⟩
  | @added p o m x head cs k action pc adding adds holds cache lists holding accepts =>
    refine .inl ⟨by rw [accepts]; nofun,?_⟩
    cases x with
    | object n => exact .inr (custody_added inv holds cache lists holding)
    | listHead n =>
      left
      apply custody_eq (custody_cache cache)
      · intro k y
        rw [lists]
        by_cases hk : k = m
        · subst k
          rw [Function.update_self]
          cases head <;> simp
        · rw [Function.update_of_ne hk]
      · exact holding_of_listHead holds holding
  | @refused p o x action refuses holds cache lists holding =>
    cases x with
    | object n => exact .inr ⟨p,n,refuses,custody_refused inv holds cache lists holding⟩
    | listHead n =>
      refine .inl ⟨by rw [refuses]; nofun,.inl ?_⟩
      apply custody_eq (custody_cache cache)
      · intro m y
        rw [lists]
      · exact holding_of_listHead holds holding
  | taken action pc count cache lists free holding accepts =>
    exact .inl ⟨by rw [accepts]; nofun,custody_taken inv once cache lists free holding⟩
  | @destroyed p o x action pc cache lists holding accepts =>
    have hholds : s.holding p = some x := congrArg Pc.holding pc
    refine .inl ⟨by rw [accepts]; nofun,?_⟩
    cases x with
    | object n => exact .inr (custody_destroyed inv hholds cache lists holding)
    | listHead n =>
      left
      apply custody_eq
      · constructor
        · funext y
          change (y < s'.messages.created) = (y < s.messages.created)
          rw [cache,MessageCache.created_destroy]
        · change s'.messages.frees = s.messages.frees
          rw [cache]
          rfl
      · intro m y
        rw [lists]
      · exact holding_of_listHead hholds holding
  | flushed outcome cache lists holding accepts =>
    exact .inl ⟨by rw [accepts]; nofun,.inr (custody_flushed inv once cache lists holding)⟩

lemma ListsOnce.stepped (once : s.ListsOnce) (h : MessageStep s act s') : s'.ListsOnce := by
  intro k n
  cases h with
  | same cache lists | created action pc made lists | failed action pc made lists
  | refused action refuses holds cache lists | destroyed action pc cache lists =>
    rw [lists]
    exact once k n
  | @added p o m x head cs k' action pc adding adds holds cache lists =>
    rw [lists]
    by_cases hk : k = m
    · subst k
      rw [Function.update_self]
      have hold := once m n
      have hcount : (if head then x :: s.lists m else s.lists m ++ [x]).count (.object n) =
          (s.lists m).count (.object n) + if x = .object n then 1 else 0 := by
        cases head <;> simp [List.count_cons,List.count_append]
      rw [hcount]
      split_ifs with hx
      · subst x
        have hzero := List.count_eq_zero.mpr (not_queued inv holds m)
        omega
      · exact hold
    · rw [Function.update_of_ne hk]
      exact once k n
  | @taken p o m cs ptrs action pc count cache lists =>
    rw [lists]
    by_cases hk : k = m
    · subst k
      rw [Function.update_self]
      exact le_trans ((List.tail_sublist _).count_le _) (once m n)
    · rw [Function.update_of_ne hk]
      exact once k n
  | @flushed m outcome cache lists =>
    rw [lists]
    by_cases hk : k = m
    · subst k
      rw [Function.update_self]
      exact Nat.zero_le 1
    · rw [Function.update_of_ne hk]
      exact once k n

end Steps

/-- What is always true of the places of the messages. -/
structure CustodyInvariant (s : System) : Prop where
  custody : Custody.Invariant s.custody
  once : s.ListsOnce

theorem custodyInvariant_initial : CustodyInvariant (initial sig) where
  custody := by
    constructor
    · intro pl n h
      cases pl <;> cases h
    · intro pl pl' n h
      cases pl <;> cases h
    · exact fun _ => Nat.zero_le 1
    · exact fun _ _ => rfl
  once m n := Nat.zero_le 1

theorem CustodyInvariant.stepped (inv : CustodyInvariant s) (h : MessageStep s act s') :
    CustodyInvariant s' where
  custody := by
    rcases h.custody inv.custody inv.once with ⟨-,he | hstep⟩ | ⟨p,n,-,hdrop⟩
    · rw [he]
      exact inv.custody
    · exact inv.custody.step hstep
    · exact inv.custody.drop hdrop
  once := inv.once.stepped inv.custody h

theorem messageStep_of_run (h : Run (step hash32) (initial sig) tr s)
    (taken : step hash32 s act = some s') : MessageStep s act s' :=
  (step_stepped taken).messageStep (consistent_of_run h) (uncreated_of_run h)

theorem custodyInvariant_of_run (h : Run (step hash32) (initial sig) tr s) :
    CustodyInvariant s := by
  induction h with
  | refl => exact custodyInvariant_initial
  | snoc prior taken ih => exact ih.stepped (messageStep_of_run prior taken)

lemma has_iff (h : Run (step hash32) (initial sig) tr s) (n : ℕ) (pl : Place) :
    s.Has n pl ↔ s.custody.has pl n := by
  cases pl with
  | call p =>
    refine ⟨And.right,fun hheld => ⟨?_,hheld⟩⟩
    have hheld' : (s.pc p).holding = some (.object n) := hheld
    exact inCall_of_holding (by rw [hheld']; nofun) ((consistent_of_run h).fits p)
  | mailbox m =>
    refine ⟨And.right,fun hqueued => ⟨?_,hqueued⟩⟩
    have hmem : .object n ∈ (s.mailboxes m).messages := hqueued
    have hcreated : m < s.mailboxesCreated := by
      by_contra hnew
      rw [uncreated_of_run h m (Nat.le_of_not_lt hnew)] at hmem
      cases hmem
    by_contra hfreed
    rw [(freed_mailbox_empty h hcreated hfreed).2] at hmem
    cases hmem

/-- The messages are owned where none is lost. -/
lemma messagesOwned_iff_accounted (h : Run (step hash32) (initial sig) tr s) :
    s.MessagesOwned ↔ Custody.Accounted s.custody := by
  have hinv := custodyInvariant_of_run h
  constructor
  · intro howned n hlive
    obtain ⟨pl,hpl,-⟩ := (howned.placed n).mp hlive
    exact ⟨pl,(has_iff h n pl).mp hpl⟩
  · intro hacc
    have hplaced : ∀ n, s.LiveMessage n ↔ ∃! pl, s.Has n pl := by
      intro n
      rw [existsUnique_congr fun pl => has_iff h n pl]
      exact hacc.live_iff hinv.custody n
    refine ⟨hplaced,hinv.once,hinv.custody.once,?_⟩
    intro hidle n
    constructor
    · intro hlive
      obtain ⟨pl,hpl,-⟩ := (hplaced n).mp hlive
      cases pl with
      | mailbox m => exact ⟨m,hpl⟩
      | call p =>
        have hbusy := hpl.1
        rw [hidle p] at hbusy
        cases hbusy
    · rintro ⟨m,hm⟩
      exact hinv.custody.live (.mailbox m) n hm.2

/-- A message whose add is refused is lost at once. -/
lemma not_messagesOwned_of_refuses {n : ℕ} (h : Run (step hash32) (initial sig) tr s)
    (taken : step hash32 s act = some s') (refuses : s.refuses act = some (.object n)) :
    ¬ s'.MessagesOwned := by
  intro howned
  have hinv := custodyInvariant_of_run h
  have hacc := (messagesOwned_iff_accounted (.snoc h taken)).mp howned
  rcases (messageStep_of_run h taken).custody hinv.custody hinv.once with
    ⟨hnever,-⟩ | ⟨p,n',-,hdrop⟩
  · exact hnever n refuses
  · exact Custody.not_accounted_of_drop hinv.custody hdrop hacc

/-- A step that refuses no message object loses none. -/
lemma accounted_stepped (h : Run (step hash32) (initial sig) tr s)
    (taken : step hash32 s act = some s') (accepts : ∀ n, s.refuses act ≠ some (.object n))
    (acc : Custody.Accounted s.custody) : Custody.Accounted s'.custody := by
  have hinv := custodyInvariant_of_run h
  rcases (messageStep_of_run h taken).custody hinv.custody hinv.once with
    ⟨-,he | hstep⟩ | ⟨p,n,hrefuses,-⟩
  · rw [he]
    exact acc
  · exact acc.step hstep
  · exact absurd hrefuses (accepts n)

/-- The messages are owned in every state of a run just in case no add of a message object is
refused in it. -/
theorem messagesOwned_iff (h : Run (step hash32) (initial sig) tr s) :
    (∀ t ∈ tr.map Prod.fst ++ [s], t.MessagesOwned) ↔
      ∀ x ∈ tr, ∀ n, x.1.refuses x.2 ≠ some (.object n) := by
  constructor
  · intro howned x hx n hrefuses
    obtain ⟨before,after,t,rfl,hbefore,htaken,hafter⟩ := h.split hx
    refine not_messagesOwned_of_refuses hbefore htaken hrefuses (howned t ?_)
    rw [List.map_append,List.append_assoc]
    exact List.mem_append_right _ (List.mem_cons_of_mem _ hafter.start_mem)
  · intro hnever t ht
    obtain ⟨before,hpre,hrun⟩ := h.reaches ht
    rw [messagesOwned_iff_accounted hrun]
    have hbefore : ∀ x ∈ before, ∀ n, x.1.refuses x.2 ≠ some (.object n) :=
      fun x hx => hnever x (hpre.subset hx)
    clear hpre ht
    induction hrun with
    | refl => exact fun n hn => absurd hn.1 (Nat.not_lt_zero n)
    | @snoc before u act u' prior taken ih =>
      apply accounted_stepped prior taken
      · exact hbefore (u,act) (by simp)
      · exact ih fun x hx => hbefore x (List.mem_append_left _ hx)

/-- Process 1001 sends itself a message and receives it. -/
theorem messagesOwned_after_receive : ∃ (tr : List (System × Action)) (s : System),
    Run (step goldenHash32) (initial fun _ => false) tr s ∧
      (∀ t ∈ tr.map Prod.fst ++ [s], t.MessagesOwned) ∧ s.messages.created = 1 ∧
      s.messages.frees 0 = 1 := by
  obtain ⟨tr,s,hrun,htest⟩ := exists_run_of_execute (step goldenHash32) (initial fun _ => false)
    ([.newProcess 1001 1000,.enter 1001 (.sendMessage 1001 0 false)] ++ runs 1001 6 ++
      [.enter 1001 (.recieveMessage ⟨4,0,4⟩ false)] ++ runs 1001 8)
    (fun tr s => tr.all (fun x => decide (x.1.refuses x.2 = none)) &&
      decide (s.messages.created = 1 ∧ s.messages.frees 0 = 1)) (by decide +kernel)
  rw [Bool.and_eq_true] at htest
  obtain ⟨hnever,hend⟩ := htest
  refine ⟨tr,s,hrun,(messagesOwned_iff hrun).mpr ?_,of_decide_eq_true hend⟩
  intro x hx n
  rw [of_decide_eq_true (List.all_eq_true.mp hnever x hx)]
  nofun

/-- Process 1001 stops its mailbox and sends itself a message. The add is refused, and then nobody
has the message. -/
theorem exists_leaked_message : ∃ (tr : List (System × Action)) (s : System),
    Run (step goldenHash32) (initial fun _ => false) tr s ∧ ¬ s.MessagesOwned := by
  obtain ⟨tr,s,hrun,htest⟩ := exists_run_of_execute (step goldenHash32) (initial fun _ => false)
    ([.newProcess 1001 1000,.enter 1001 (.manageMailbox true 4)] ++ runs 1001 6 ++
      [.enter 1001 (.sendMessage 1001 0 false)] ++ runs 1001 5)
    (fun _ s => decide (s.refuses (.run 1001 .clear) = some (.object 0)) &&
      (step goldenHash32 s (.run 1001 .clear)).isSome) (by decide +kernel)
  rw [Bool.and_eq_true] at htest
  obtain ⟨hrefuses,htaken⟩ := htest
  obtain ⟨s',hs'⟩ := Option.isSome_iff_exists.mp htaken
  exact ⟨tr ++ [(s,.run 1001 .clear)],s',.snoc hrun hs',
    not_messagesOwned_of_refuses hrun hs' (of_decide_eq_true hrefuses)⟩

end System
end ProcessMessagePassing
