import ProcessMessagePassing.Concurrency.Holders

/-! A registry of shared objects. Clients look an object up by its key under one lock, create it
when it is missing, and count the references they hold. A client retires an object by starting a
retirer for it, which unlinks the object, waits until its count is zero, and frees it. -/
namespace Concurrency.Registry

variable {ι κ : Type*}

/-- What a client has to do with an object. The lock is held while claiming, checking, refusing
and retiring. -/
inductive Role
  | idle
  | claiming (n : ℕ) (fresh : Bool)
  | checking (n : ℕ)
  | refusing (n : ℕ)
  | holding (n : ℕ)
  | retiring (n : ℕ)
  | scheduled (n : ℕ)
  deriving DecidableEq, Repr

namespace Role

/-- The client has counted a reference to the object and not given it back. -/
def Holds (n : ℕ) : Role → Prop
  | checking m => m = n
  | refusing m => m = n
  | holding m => m = n
  | _ => False

/-- The client holds the lock for its business with the object. -/
def Locks (n : ℕ) : Role → Prop
  | claiming m _ => m = n
  | checking m => m = n
  | refusing m => m = n
  | retiring m => m = n
  | _ => False

/-- The client is on its way to start a retirer for the object. -/
def Retires (n : ℕ) : Role → Prop
  | retiring m => m = n
  | scheduled m => m = n
  | _ => False

/-- The client can reach the object. -/
def Uses (n : ℕ) (r : Role) : Prop := Holds n r ∨ Locks n r

end Role

/-- A retirer reads the key, unlinks what has that key, drains the object and frees it. -/
inductive Phase (κ : Type*)
  | started
  | waiting (k : κ)
  | draining
  | freeing
  | done

/-- The retirer is past the unlinking. -/
def Phase.Unlinked : Phase κ → Prop
  | .started => False
  | .waiting _ => False
  | _ => True

@[ext] structure State (ι κ : Type*) where
  key : ℕ → κ
  created : ℕ
  linked : ℕ → Prop
  lock : Option ι
  references : ℕ → ℤ
  frees : ℕ → ℕ
  role : ι → Role
  retirer : ℕ → Option (ℕ × Phase κ)

/-- A retirement of the object has been begun. -/
def State.Underway (t : State ι κ) (n : ℕ) : Prop :=
  (∃ i, (t.role i).Retires n) ∨ ∃ r ph, t.retirer r = some (n,ph)

variable [DecidableEq ι]

def State.setRole (t : State ι κ) (i : ι) (r : Role) : State ι κ :=
  { t with role := Function.update t.role i r }

def State.setRetirer (t : State ι κ) (r : ℕ) (x : ℕ × Phase κ) : State ι κ :=
  { t with retirer := Function.update t.retirer r (some x) }

/-- One step of the registry. A client may retire an object only where `mayRetire` allows it, and
retirers that are `patient` wait for the count to be zero. -/
inductive Step (patient : Prop) (mayRetire : State ι κ → ℕ → Prop) (t : State ι κ) :
    State ι κ → Prop
  | create {i k} (idle : t.role i = .idle) (unlocked : t.lock = none)
      (missing : ∀ n, t.linked n → t.key n ≠ k) :
      Step patient mayRetire t ({ t with
        key := Function.update t.key t.created k
        created := t.created + 1
        linked := fun n => n = t.created ∨ t.linked n
        lock := some i
        references := Function.update t.references t.created 0
        frees := Function.update t.frees t.created 0 }.setRole i (.claiming t.created true))
  | find {i n} (idle : t.role i = .idle) (unlocked : t.lock = none) (linked : t.linked n) :
      Step patient mayRetire t ({ t with lock := some i }.setRole i (.claiming n false))
  | claim {i n} (claiming : t.role i = .claiming n true) :
      Step patient mayRetire t ({ t with
        references := Function.update t.references n (t.references n + 1)
        lock := none }.setRole i (.holding n))
  | reclaim {i n} (claiming : t.role i = .claiming n false) :
      Step patient mayRetire t ({ t with
        references := Function.update t.references n (t.references n + 1) }.setRole i
          (.checking n))
  | grant {i n} (checking : t.role i = .checking n) :
      Step patient mayRetire t ({ t with lock := none }.setRole i (.holding n))
  | refuse {i n} (checking : t.role i = .checking n) :
      Step patient mayRetire t (t.setRole i (.refusing n))
  | dismiss {i n} (refusing : t.role i = .refusing n) :
      Step patient mayRetire t ({ t with
        references := Function.update t.references n (t.references n - 1)
        lock := none }.setRole i .idle)
  | release {i n} (holding : t.role i = .holding n) :
      Step patient mayRetire t ({ t with
        references := Function.update t.references n (t.references n - 1) }.setRole i .idle)
  | retire {i n} (idle : t.role i = .idle) (unlocked : t.lock = none) (linked : t.linked n)
      (may : mayRetire t n) :
      Step patient mayRetire t ({ t with lock := some i }.setRole i (.retiring n))
  | schedule {i n} (retiring : t.role i = .retiring n) :
      Step patient mayRetire t ({ t with lock := none }.setRole i (.scheduled n))
  | start {i n r} (scheduled : t.role i = .scheduled n) (free : t.retirer r = none) :
      Step patient mayRetire t ((t.setRetirer r (n,.started)).setRole i .idle)
  | abandon {i n} (scheduled : t.role i = .scheduled n) : Step patient mayRetire t (t.setRole i .idle)
  | read {r n k} (started : t.retirer r = some (n,.started))
      (read : t.frees n = 0 → k = t.key n) : Step patient mayRetire t (t.setRetirer r (n,.waiting k))
  | unlink {r n k} (waiting : t.retirer r = some (n,.waiting k)) (unlocked : t.lock = none) :
      Step patient mayRetire t ({ t with linked := fun n => t.linked n ∧ t.key n ≠ k }.setRetirer r
        (n,.draining))
  | drained {r n} (draining : t.retirer r = some (n,.draining))
      (zero : patient → t.references n = 0) :
      Step patient mayRetire t (t.setRetirer r (n,.freeing))
  | free {r n} (freeing : t.retirer r = some (n,.freeing)) :
      Step patient mayRetire t ({ t with
        frees := Function.update t.frees n (t.frees n + 1) }.setRetirer r (n,.done))

/-- Only created objects are known to anybody, the lock protects its sections, and an object is
unlinked before it is drained. -/
structure Coherent (t : State ι κ) : Prop where
  locks : ∀ {i n}, (t.role i).Locks n → t.lock = some i ∧ t.linked n
  linked_lt : ∀ {n}, t.linked n → n < t.created
  holds_lt : ∀ {i n}, (t.role i).Holds n → n < t.created
  retires_lt : ∀ {i n}, (t.role i).Retires n → n < t.created
  retirer_lt : ∀ {r n ph}, t.retirer r = some (n,ph) → n < t.created
  frees_lt : ∀ {n}, t.frees n ≠ 0 → n < t.created
  waiting : ∀ {r n k}, t.retirer r = some (n,.waiting k) → k = t.key n ∨ t.frees n ≠ 0
  unlinked : ∀ {r n ph}, t.retirer r = some (n,ph) → ph.Unlinked → ¬ t.linked n
  freed_unlinked : ∀ {n}, t.frees n ≠ 0 → ¬ t.linked n

/-- An object is freed only when it is unlinked and nobody holds it. -/
structure Invariant (t : State ι κ) : Prop extends Coherent t where
  counts : ∀ n, Counts (t.references n) t.role (Role.Holds n)
  freeing : ∀ {r n}, t.retirer r = some (n,.freeing) → t.references n = 0
  freed : ∀ {n}, t.frees n ≠ 0 → t.references n = 0

variable {patient : Prop} {mayRetire : State ι κ → ℕ → Prop} {t t' : State ι κ}

omit [DecidableEq ι] in
theorem Coherent.empty (linked : ∀ n, ¬ t.linked n) (idle : ∀ i, t.role i = .idle)
    (retirer : ∀ r, t.retirer r = none) (frees : ∀ n, t.frees n = 0) : Coherent t where
  locks {i n} h := by rw [idle] at h; exact False.elim h
  linked_lt h := absurd h (linked _)
  holds_lt {i n} h := by rw [idle] at h; exact False.elim h
  retires_lt {i n} h := by rw [idle] at h; exact False.elim h
  retirer_lt h := by rw [retirer] at h; cases h
  frees_lt h := absurd (frees _) h
  waiting h := by rw [retirer] at h; cases h
  unlinked h := by rw [retirer] at h; cases h
  freed_unlinked h := absurd (frees _) h

omit [DecidableEq ι] in
/-- Nobody is in the registry. -/
theorem Invariant.empty (linked : ∀ n, ¬ t.linked n)
    (idle : ∀ i, t.role i = .idle) (retirer : ∀ r, t.retirer r = none)
    (references : ∀ n, t.references n = 0) (frees : ∀ n, t.frees n = 0) : Invariant t where
  toCoherent := .empty linked idle retirer frees
  counts n := by
    rw [references]
    exact Counts.initial fun i => by rw [idle]; exact id
  freeing h := by rw [retirer] at h; cases h
  freed h := absurd (frees _) h

/-- A client whose role has a property after an update is the updated one or had it before. -/
lemma of_setRole {i j : ι} {r : Role} {P : Role → Prop} (h : P ((t.setRole i r).role j)) :
    (j = i ∧ P r) ∨ (j ≠ i ∧ P (t.role j)) := by
  by_cases hj : j = i
  · subst j
    exact .inl ⟨rfl,by simpa [State.setRole] using h⟩
  · exact .inr ⟨hj,by simpa [State.setRole,hj] using h⟩

omit [DecidableEq ι] in
lemma of_setRetirer {r r' : ℕ} {x y : ℕ × Phase κ}
    (h : (t.setRetirer r x).retirer r' = some y) :
    (r' = r ∧ x = y) ∨ (r' ≠ r ∧ t.retirer r' = some y) := by
  by_cases hr : r' = r
  · subst r'
    exact .inl ⟨rfl,by simpa [State.setRetirer] using h⟩
  · exact .inr ⟨hr,by simpa [State.setRetirer,hr] using h⟩

omit [DecidableEq ι] in
lemma Coherent.locks_self (h : Coherent t) {i : ι} {n : ℕ} {r : Role} (role : t.role i = r)
    (locks : r.Locks n) : t.lock = some i ∧ t.linked n := h.locks (role ▸ locks)

omit [DecidableEq ι] in
/-- Only one client at a time has the lock. -/
lemma Coherent.eq_of_locks (h : Coherent t) {i j : ι} {n : ℕ} (lock : t.lock = some i)
    (locks : (t.role j).Locks n) : j = i :=
  Option.some.inj ((h.locks locks).1.symm.trans lock)

omit [DecidableEq ι] in
lemma Coherent.not_locks (h : Coherent t) {j : ι} {n : ℕ} (unlocked : t.lock = none) :
    ¬ (t.role j).Locks n := fun hl => by
  rw [(h.locks hl).1] at unlocked
  cases unlocked

lemma Coherent.step_locks (h : Coherent t) (hs : Step patient mayRetire t t') {j : ι} {m : ℕ}
    (hl : (t'.role j).Locks m) : t'.lock = some j ∧ t'.linked m := by
  cases hs with
  | create idle unlocked missing =>
    rcases of_setRole (P := Role.Locks m) hl with ⟨rfl,rfl⟩ | ⟨-,hl⟩
    · exact ⟨rfl,.inl rfl⟩
    · exact absurd hl (h.not_locks unlocked)
  | find idle unlocked linked | retire idle unlocked linked =>
    rcases of_setRole (P := Role.Locks m) hl with ⟨rfl,rfl⟩ | ⟨-,hl⟩
    · exact ⟨rfl,linked⟩
    · exact absurd hl (h.not_locks unlocked)
  | claim role | grant role | dismiss role | schedule role =>
    rcases of_setRole (P := Role.Locks m) hl with ⟨rfl,new⟩ | ⟨hj,hl⟩
    · exact False.elim new
    · exact absurd (h.eq_of_locks (h.locks_self role rfl).1 hl) hj
  | reclaim role | refuse role =>
    rcases of_setRole (P := Role.Locks m) hl with ⟨rfl,rfl⟩ | ⟨hj,hl⟩
    · exact h.locks_self role rfl
    · exact absurd (h.eq_of_locks (h.locks_self role rfl).1 hl) hj
  | release | start | abandon =>
    rcases of_setRole (P := Role.Locks m) hl with ⟨rfl,new⟩ | ⟨-,hl⟩
    · exact False.elim new
    · exact h.locks hl
  | unlink waiting unlocked => exact absurd hl (h.not_locks unlocked)
  | read | drained | free => exact h.locks hl

lemma Coherent.step_linked_lt (h : Coherent t) (hs : Step patient mayRetire t t') {m : ℕ}
    (hl : t'.linked m) : m < t'.created := by
  cases hs with
  | create =>
    rcases hl with rfl | hl
    · exact Nat.lt_succ_self _
    · exact Nat.lt_succ_of_lt (h.linked_lt hl)
  | unlink => exact h.linked_lt hl.1
  | _ => exact h.linked_lt hl

lemma Step.created_le (hs : Step patient mayRetire t t') : t.created ≤ t'.created := by
  cases hs with
  | create => exact Nat.le_succ _
  | _ => exact Nat.le_refl _

lemma Coherent.step_holds_lt (h : Coherent t) (hs : Step patient mayRetire t t') {j : ι} {m : ℕ}
    (hh : (t'.role j).Holds m) : m < t'.created := by
  refine Nat.lt_of_lt_of_le ?_ hs.created_le
  cases hs with
  | claim role | reclaim role =>
    rcases of_setRole (P := Role.Holds m) hh with ⟨rfl,rfl⟩ | ⟨-,hh⟩
    · exact h.linked_lt (h.locks_self role rfl).2
    · exact h.holds_lt hh
  | grant role | refuse role =>
    rcases of_setRole (P := Role.Holds m) hh with ⟨rfl,rfl⟩ | ⟨-,hh⟩
    · exact h.linked_lt (h.locks_self role rfl).2
    · exact h.holds_lt hh
  | create | find | dismiss | release | retire | schedule | start | abandon =>
    rcases of_setRole (P := Role.Holds m) hh with ⟨rfl,new⟩ | ⟨-,hh⟩
    · exact False.elim new
    · exact h.holds_lt hh
  | _ => exact h.holds_lt hh

lemma Coherent.step_retires_lt (h : Coherent t) (hs : Step patient mayRetire t t') {j : ι} {m : ℕ}
    (hr : (t'.role j).Retires m) : m < t'.created := by
  refine Nat.lt_of_lt_of_le ?_ hs.created_le
  cases hs with
  | retire idle unlocked linked =>
    rcases of_setRole (P := Role.Retires m) hr with ⟨rfl,rfl⟩ | ⟨-,hr⟩
    · exact h.linked_lt linked
    · exact h.retires_lt hr
  | @schedule i n role =>
    rcases of_setRole (P := Role.Retires m) hr with ⟨rfl,rfl⟩ | ⟨-,hr⟩
    · have hold : (t.role j).Retires n := by rw [role]; rfl
      exact h.retires_lt hold
    · exact h.retires_lt hr
  | create | find | claim | reclaim | grant | refuse | dismiss | release | start | abandon =>
    rcases of_setRole (P := Role.Retires m) hr with ⟨rfl,new⟩ | ⟨-,hr⟩
    · exact False.elim new
    · exact h.retires_lt hr
  | _ => exact h.retires_lt hr

/-- A retirer keeps its object. -/
lemma Coherent.step_retirer_lt (h : Coherent t) (hs : Step patient mayRetire t t') {r m : ℕ}
    {ph : Phase κ} (hr : t'.retirer r = some (m,ph)) : m < t'.created := by
  refine Nat.lt_of_lt_of_le ?_ hs.created_le
  cases hs with
  | @start i n _ role free =>
    rcases of_setRetirer hr with ⟨rfl,new⟩ | ⟨-,hr⟩
    · cases new
      have hretires : (t.role i).Retires m := by rw [role]; rfl
      exact h.retires_lt hretires
    · exact h.retirer_lt hr
  | read old | unlink old | drained old | free old =>
    rcases of_setRetirer hr with ⟨rfl,new⟩ | ⟨-,hr⟩
    · cases new
      exact h.retirer_lt old
    · exact h.retirer_lt hr
  | _ => exact h.retirer_lt hr

/-- The key of an object never changes. -/
lemma Step.key_eq (hs : Step patient mayRetire t t') {n : ℕ} (hn : n < t.created) :
    t'.key n = t.key n := by
  cases hs with
  | create => exact Function.update_of_ne hn.ne _ _
  | _ => rfl

/-- An object is freed by a retirer that was about to. -/
lemma Step.frees_eq (hs : Step patient mayRetire t t') {n : ℕ} (hn : n < t.created) :
    t'.frees n = t.frees n ∨
      (∃ r, t.retirer r = some (n,.freeing) ∧ t'.retirer r = some (n,.done)) ∧
        t'.frees n = t.frees n + 1 := by
  cases hs with
  | create => exact .inl (Function.update_of_ne hn.ne _ _)
  | @free r m freeing =>
    by_cases hm : n = m
    · subst m
      exact .inr ⟨⟨r,freeing,Function.update_self _ _ _⟩,Function.update_self _ _ _⟩
    · exact .inl (Function.update_of_ne hm _ _)
  | _ => exact .inl rfl

lemma Step.frees_le (hs : Step patient mayRetire t t') {n : ℕ} (hn : n < t.created) :
    t.frees n ≤ t'.frees n := by
  rcases hs.frees_eq hn with he | ⟨-,he⟩ <;> omega

/-- Once created, an object is not linked again. -/
lemma Step.not_linked (hs : Step patient mayRetire t t') {n : ℕ} (hn : n < t.created)
    (hl : ¬ t.linked n) : ¬ t'.linked n := by
  cases hs with
  | create =>
    rintro (rfl | hl')
    · exact absurd hn (Nat.lt_irrefl _)
    · exact hl hl'
  | unlink => exact fun hl' => hl hl'.1
  | _ => exact hl

lemma Coherent.step_waiting (h : Coherent t) (hs : Step patient mayRetire t t') {r m : ℕ} {k : κ}
    (hr : t'.retirer r = some (m,.waiting k)) : k = t'.key m ∨ t'.frees m ≠ 0 := by
  -- a retirer that waited before still has its key
  have old : t.retirer r = some (m,.waiting k) → k = t'.key m ∨ t'.frees m ≠ 0 := by
    intro hr
    have hm := h.retirer_lt hr
    rw [hs.key_eq hm]
    have hfree := hs.frees_le hm
    rcases h.waiting hr with hk | hf
    · exact .inl hk
    · exact .inr (by omega)
  cases hs with
  | @read r n k' started read =>
    rcases of_setRetirer hr with ⟨rfl,new⟩ | ⟨-,hr⟩
    · cases new
      by_cases hf : t.frees m = 0
      · exact .inl (read hf)
      · exact .inr hf
    · exact old hr
  | start | unlink | drained | free =>
    rcases of_setRetirer hr with ⟨rfl,new⟩ | ⟨-,hr⟩
    · cases new
    · exact old hr
  | _ => exact old hr

lemma Coherent.step_unlinked (h : Coherent t) (hs : Step patient mayRetire t t') {r m : ℕ}
    {ph : Phase κ} (hr : t'.retirer r = some (m,ph)) (hp : ph.Unlinked) : ¬ t'.linked m := by
  have old : ∀ {ph : Phase κ}, t.retirer r = some (m,ph) → ph.Unlinked → ¬ t'.linked m :=
    fun hr hp => hs.not_linked (h.retirer_lt hr) (h.unlinked hr hp)
  cases hs with
  | @unlink r n k waiting unlocked =>
    rcases of_setRetirer hr with ⟨rfl,new⟩ | ⟨-,hr⟩
    · cases new
      rintro ⟨hl,hk⟩
      rcases h.waiting waiting with rfl | hf
      · exact hk rfl
      · exact h.freed_unlinked hf hl
    · exact old hr hp
  | start | read =>
    rcases of_setRetirer hr with ⟨rfl,new⟩ | ⟨-,hr⟩
    · cases new
      exact False.elim hp
    · exact old hr hp
  | drained before | free before =>
    rcases of_setRetirer hr with ⟨rfl,new⟩ | ⟨-,hr⟩
    · cases new
      exact old before trivial
    · exact old hr hp
  | _ => exact old hr hp

/-- The count of an object that is unlinked and zero stays zero. -/
lemma Invariant.step_references (h : Invariant t) (hs : Step patient mayRetire t t') {m : ℕ}
    (hl : ¬ t.linked m) (hz : t.references m = 0) :
    t'.references m = 0 := by
  have hfree := (h.counts m).zero_iff.mp hz
  cases hs with
  | create =>
    by_cases hm : m = t.created
    · subst m
      exact Function.update_self _ _ _
    · exact (Function.update_of_ne hm _ _).trans hz
  | @claim i n role | @reclaim i n role =>
    have hn : m ≠ n := by
      rintro rfl
      exact hl (h.locks_self role rfl).2
    exact (Function.update_of_ne hn _ _).trans hz
  | @dismiss i n role | @release i n role =>
    have hn : m ≠ n := by
      rintro rfl
      exact hfree i (by rw [role]; rfl)
    exact (Function.update_of_ne hn _ _).trans hz
  | _ => exact hz

lemma Invariant.step_freeing (h : Invariant t) (hs : Step True mayRetire t t') {r m : ℕ}
    (hr : t'.retirer r = some (m,.freeing)) : t'.references m = 0 := by
  have old : t.retirer r = some (m,.freeing) → t'.references m = 0 := fun hr =>
    h.step_references hs (h.unlinked hr trivial) (h.freeing hr)
  cases hs with
  | drained draining zero =>
    rcases of_setRetirer hr with ⟨rfl,new⟩ | ⟨-,hr⟩
    · cases new
      exact zero trivial
    · exact old hr
  | start | read | unlink | free =>
    rcases of_setRetirer hr with ⟨rfl,new⟩ | ⟨-,hr⟩
    · cases new
    · exact old hr
  | _ => exact old hr

/-- Only an object that was there can have been freed after a step. -/
lemma Coherent.lt_of_step_frees (h : Coherent t) (hs : Step patient mayRetire t t') {m : ℕ}
    (hf : t'.frees m ≠ 0) : m < t.created := by
  cases hs with
  | create =>
    by_cases hm : m = t.created
    · subst m
      exact absurd (Function.update_self _ _ _) hf
    · exact h.frees_lt (by simpa [State.setRole,hm] using hf)
  | @free r n freeing =>
    by_cases hm : m = n
    · subst m
      exact h.retirer_lt freeing
    · exact h.frees_lt (by simpa [State.setRetirer,hm] using hf)
  | _ => exact h.frees_lt hf

lemma Coherent.step_freed_unlinked (h : Coherent t) (hs : Step patient mayRetire t t') {m : ℕ}
    (hf : t'.frees m ≠ 0) : ¬ t'.linked m := by
  have hm := h.lt_of_step_frees hs hf
  apply hs.not_linked hm
  rcases hs.frees_eq hm with he | ⟨⟨r,hr,-⟩,-⟩
  · exact h.freed_unlinked (he ▸ hf)
  · exact h.unlinked hr trivial

lemma Invariant.step_freed (h : Invariant t) (hs : Step patient mayRetire t t') {m : ℕ}
    (hf : t'.frees m ≠ 0) : t'.references m = 0 := by
  rcases hs.frees_eq (h.lt_of_step_frees hs hf) with he | ⟨⟨r,hr,-⟩,-⟩
  · rw [he] at hf
    exact h.step_references hs (h.freed_unlinked hf) (h.freed hf)
  · exact h.step_references hs (h.unlinked hr trivial) (h.freeing hr)

/-- A client that takes or leaves a hold of `n` changes no other count. -/
lemma Counts.of_ne {f : ℕ → ℤ} {i : ι} {n m : ℕ} {v : ℤ} {r : Role}
    (hm : m ≠ n) (h : Counts (f m) t.role (Role.Holds m))
    (hr : Role.Holds m r ↔ Role.Holds m (t.role i)) :
    Counts (Function.update f n v m) (Function.update t.role i r) (Role.Holds m) := by
  rw [Function.update_of_ne hm]
  exact h.unchanged hr

/-- A step counts a reference exactly when its client takes or gives back a hold. -/
lemma Invariant.step_counts (h : Invariant t) (hs : Step patient mayRetire t t') (m : ℕ) :
    Counts (t'.references m) t'.role (Role.Holds m) := by
  have hm := h.counts m
  cases hs with
  | @create i k idle unlocked missing =>
    have hr : Role.Holds m (.claiming t.created true) ↔ Role.Holds m (t.role i) := by
      rw [idle]; rfl
    by_cases hn : m = t.created
    · subst m
      have hnobody : ∀ j, ¬ (t.role j).Holds t.created := fun j hj =>
        Nat.lt_irrefl _ (h.holds_lt hj)
      change Counts (Function.update t.references t.created 0 t.created) _ _
      rw [Function.update_self]
      exact (Counts.initial hnobody).unchanged hr
    · exact Counts.of_ne hn hm hr
  | @claim i n role | @reclaim i n role =>
    by_cases hn : m = n
    · subst m
      change Counts (Function.update t.references n _ n) _ _
      rw [Function.update_self]
      exact hm.enter (by rw [role]; exact id) rfl
    · refine Counts.of_ne hn hm ?_
      rw [role]
      exact ⟨fun h => hn h.symm,False.elim⟩
  | @dismiss i n role | @release i n role =>
    by_cases hn : m = n
    · subst m
      change Counts (Function.update t.references n _ n) _ _
      rw [Function.update_self]
      exact hm.leave (by rw [role]; rfl) id
    · refine Counts.of_ne hn hm ?_
      rw [role]
      exact ⟨False.elim,fun h => hn h.symm⟩
  | find role | grant role | refuse role | retire role | schedule role | start role
  | abandon role =>
    refine hm.unchanged ?_
    rw [role]
    rfl
  | read | unlink | drained | free => exact hm

theorem Coherent.step (h : Coherent t) (hs : Step patient mayRetire t t') : Coherent t' where
  locks := h.step_locks hs
  linked_lt := h.step_linked_lt hs
  holds_lt := h.step_holds_lt hs
  retires_lt := h.step_retires_lt hs
  retirer_lt := h.step_retirer_lt hs
  frees_lt hf := Nat.lt_of_lt_of_le (h.lt_of_step_frees hs hf) hs.created_le
  waiting := h.step_waiting hs
  unlinked := h.step_unlinked hs
  freed_unlinked := h.step_freed_unlinked hs

theorem Invariant.step (h : Invariant t) (hs : Step True mayRetire t t') : Invariant t' where
  toCoherent := h.toCoherent.step hs
  counts := h.step_counts hs
  freeing := h.step_freeing hs
  freed := h.step_freed hs

omit [DecidableEq ι] in
/-- Nobody can reach an object that has been freed or is about to be. -/
theorem Invariant.not_uses (h : Invariant t) {n : ℕ}
    (gone : t.frees n ≠ 0 ∨ ∃ r, t.retirer r = some (n,.freeing)) :
    ¬ t.linked n ∧ ∀ i, ¬ (t.role i).Uses n := by
  have hboth : ¬ t.linked n ∧ t.references n = 0 := by
    rcases gone with hf | ⟨r,hr⟩
    · exact ⟨h.freed_unlinked hf,h.freed hf⟩
    · exact ⟨h.unlinked hr trivial,h.freeing hr⟩
  refine ⟨hboth.1,fun i hu => ?_⟩
  rcases hu with hh | hl
  · exact (h.counts n).zero_iff.mp hboth.2 i hh
  · exact hboth.1 (h.locks hl).2

/-- An object that has been freed or is about to be stays that way. -/
lemma Step.gone (hs : Step patient mayRetire t t') {n : ℕ} (hn : n < t.created)
    (gone : t.frees n ≠ 0 ∨ ∃ r, t.retirer r = some (n,.freeing)) :
    t'.frees n ≠ 0 ∨ ∃ r, t'.retirer r = some (n,.freeing) := by
  rcases gone with hf | ⟨r,hr⟩
  · have hle := hs.frees_le hn
    exact .inl (by omega)
  · cases hs with
    | @start i m r' role free =>
      have hne : r ≠ r' := by rintro rfl; rw [free] at hr; cases hr
      exact .inr ⟨r,(Function.update_of_ne hne _ _).trans hr⟩
    | @read r' m k old | @unlink r' m k old | @drained r' m old =>
      have hne : r ≠ r' := by rintro rfl; rw [old] at hr; cases hr
      exact .inr ⟨r,(Function.update_of_ne hne _ _).trans hr⟩
    | @free r' m old =>
      by_cases hm : n = m
      · subst m
        left
        change Function.update t.frees n _ n ≠ 0
        rw [Function.update_self]
        exact Nat.succ_ne_zero _
      · have hne : r ≠ r' := by
          rintro rfl
          rw [old] at hr
          cases hr
          exact hm rfl
        exact .inr ⟨r,(Function.update_of_ne hne _ _).trans hr⟩
    | _ => exact .inr ⟨r,hr⟩

/-! At most one retirement of each object, where a client may retire only objects whose
retirement is not under way. -/

/-- The retirement of the object has not begun. -/
def State.Fresh (t : State ι κ) (n : ℕ) : Prop := ¬ t.Underway n

structure Once (t : State ι κ) : Prop where
  clients : ∀ {i j n}, (t.role i).Retires n → (t.role j).Retires n → i = j
  retirers : ∀ {r r' n ph ph'}, t.retirer r = some (n,ph) → t.retirer r' = some (n,ph') → r = r'
  either : ∀ {i r n ph}, (t.role i).Retires n → t.retirer r ≠ some (n,ph)
  freed : ∀ {r n ph}, t.frees n ≠ 0 → t.retirer r = some (n,ph) → ph = .done
  frees_le : ∀ n, t.frees n ≤ 1
  freed_done : ∀ {n}, t.frees n ≠ 0 → ∃ r, t.retirer r = some (n,.done)

omit [DecidableEq ι] in
theorem Once.empty (idle : ∀ i, t.role i = .idle) (retirer : ∀ r, t.retirer r = none)
    (frees : ∀ n, t.frees n = 0) : Once t where
  clients {i j n} h := by rw [idle] at h; exact False.elim h
  retirers h := by rw [retirer] at h; cases h
  either {i r n ph} h := by rw [idle] at h; exact False.elim h
  freed h := absurd (frees _) h
  frees_le n := by rw [frees]; exact Nat.zero_le _
  freed_done h := absurd (frees _) h

/-- A client on its way to start a retirer was so before, or has just been allowed to. -/
lemma Step.retires_cases (hs : Step patient mayRetire t t') {i : ι} {n : ℕ}
    (hr : (t'.role i).Retires n) : (t.role i).Retires n ∨
      (mayRetire t n ∧ t.lock = none ∧ ∀ j, j ≠ i → t'.role j = t.role j) := by
  cases hs with
  | @retire i n idle unlocked linked may =>
    rcases of_setRole (P := Role.Retires _) hr with ⟨rfl,rfl⟩ | ⟨-,hr⟩
    · exact .inr ⟨may,unlocked,fun j hj => Function.update_of_ne hj _ _⟩
    · exact .inl hr
  | schedule role =>
    rcases of_setRole (P := Role.Retires _) hr with ⟨rfl,rfl⟩ | ⟨-,hr⟩
    · exact .inl (by rw [role]; rfl)
    · exact .inl hr
  | create | find | claim | reclaim | grant | refuse | dismiss | release | start | abandon =>
    rcases of_setRole (P := Role.Retires _) hr with ⟨rfl,new⟩ | ⟨-,hr⟩
    · exact False.elim new
    · exact .inl hr
  | _ => exact .inl hr

/-- A retirer of the object was one before, or a client has just started it. -/
lemma Step.retirer_cases (hs : Step patient mayRetire t t') {r n : ℕ} {ph : Phase κ}
    (hr : t'.retirer r = some (n,ph)) : (∃ ph', t.retirer r = some (n,ph')) ∨
      (t.retirer r = none ∧ (∀ r', r' ≠ r → t'.retirer r' = t.retirer r') ∧
        ∃ i, (t.role i).Retires n ∧ t'.role = Function.update t.role i .idle) := by
  cases hs with
  | @start i m r' role free =>
    rcases of_setRetirer hr with ⟨rfl,new⟩ | ⟨-,hr⟩
    · cases new
      refine .inr ⟨free,fun r' hr' => Function.update_of_ne hr' _ _,i,?_,rfl⟩
      rw [role]
      rfl
    · exact .inl ⟨ph,hr⟩
  | read old | unlink old | drained old | free old =>
    rcases of_setRetirer hr with ⟨rfl,new⟩ | ⟨-,hr⟩
    · cases new
      exact .inl ⟨_,old⟩
    · exact .inl ⟨ph,hr⟩
  | _ => exact .inl ⟨ph,hr⟩

/-- A retirer that is done stays so. -/
lemma Step.done (hs : Step patient mayRetire t t') {r n : ℕ} (hr : t.retirer r = some (n,.done)) :
    t'.retirer r = some (n,.done) := by
  cases hs with
  | @start i m r' role free =>
    have hne : r ≠ r' := by rintro rfl; rw [free] at hr; cases hr
    exact (Function.update_of_ne hne _ _).trans hr
  | @read r' m k old | @unlink r' m k old | @drained r' m old | @free r' m old =>
    have hne : r ≠ r' := by rintro rfl; rw [old] at hr; cases hr
    exact (Function.update_of_ne hne _ _).trans hr
  | _ => exact hr

lemma Once.step_clients (h : Once t) (hs : Step patient State.Fresh t t') {i j : ι} {n : ℕ}
    (hi : (t'.role i).Retires n) (hj : (t'.role j).Retires n) : i = j := by
  by_contra hne
  rcases hs.retires_cases hi with hi' | ⟨fresh,-,same⟩
  · rcases hs.retires_cases hj with hj' | ⟨fresh,-,-⟩
    · exact hne (h.clients hi' hj')
    · exact fresh (.inl ⟨i,hi'⟩)
  · rw [same j (Ne.symm hne)] at hj
    exact fresh (.inl ⟨j,hj⟩)

lemma Once.step_retirers (h : Once t) (hs : Step patient State.Fresh t t') {r r' n : ℕ}
    {ph ph' : Phase κ} (hr : t'.retirer r = some (n,ph)) (hr' : t'.retirer r' = some (n,ph')) :
    r = r' := by
  by_contra hne
  rcases hs.retirer_cases hr with ⟨_,old⟩ | ⟨_,same,i,hi,-⟩
  · rcases hs.retirer_cases hr' with ⟨_,old'⟩ | ⟨_,-,i,hi,-⟩
    · exact hne (h.retirers old old')
    · exact h.either hi old
  · rw [same r' (Ne.symm hne)] at hr'
    exact h.either hi hr'

lemma Once.step_either (h : Once t) (hs : Step patient State.Fresh t t') {i : ι} {r n : ℕ}
    {ph : Phase κ} (hi : (t'.role i).Retires n) : t'.retirer r ≠ some (n,ph) := by
  intro hr
  rcases hs.retirer_cases hr with ⟨ph',old⟩ | ⟨-,-,j,hj,hrole⟩
  · rcases hs.retires_cases hi with hi' | ⟨fresh,-,-⟩
    · exact h.either hi' old
    · exact fresh (.inr ⟨r,ph',old⟩)
  · rw [hrole] at hi
    by_cases hij : i = j
    · subst i
      rw [Function.update_self] at hi
      exact hi
    · rw [Function.update_of_ne hij] at hi
      exact hij (h.clients hi hj)

lemma Once.step_freed (h : Once t) (coherent : Coherent t) (hs : Step patient State.Fresh t t')
    {r n : ℕ} {ph : Phase κ} (hf : t'.frees n ≠ 0) (hr : t'.retirer r = some (n,ph)) :
    ph = .done := by
  rcases hs.frees_eq (coherent.lt_of_step_frees hs hf) with he | ⟨⟨r',-,hr'⟩,-⟩
  · rw [he] at hf
    rcases hs.retirer_cases hr with ⟨ph',old⟩ | ⟨-,-,i,hi,-⟩
    · obtain rfl := h.freed hf old
      rw [hs.done old] at hr
      cases hr
      rfl
    · obtain ⟨r',old⟩ := h.freed_done hf
      exact absurd old (h.either hi)
  · obtain rfl := h.step_retirers hs hr hr'
    rw [hr'] at hr
    cases hr
    rfl

lemma Once.step_frees_le (h : Once t) (coherent : Coherent t) (hs : Step patient State.Fresh t t') (n : ℕ) :
    t'.frees n ≤ 1 := by
  by_cases hf : t'.frees n = 0
  · omega
  · rcases hs.frees_eq (coherent.lt_of_step_frees hs hf) with he | ⟨⟨r,hr,-⟩,he⟩
    · rw [he]
      exact h.frees_le n
    · have hzero : t.frees n = 0 := by
        by_contra hne
        cases h.freed hne hr
      omega

lemma Once.step_freed_done (h : Once t) (coherent : Coherent t) (hs : Step patient State.Fresh t t')
    {n : ℕ} (hf : t'.frees n ≠ 0) : ∃ r, t'.retirer r = some (n,.done) := by
  rcases hs.frees_eq (coherent.lt_of_step_frees hs hf) with he | ⟨⟨r,-,hr⟩,-⟩
  · rw [he] at hf
    obtain ⟨r,hr⟩ := h.freed_done hf
    exact ⟨r,hs.done hr⟩
  · exact ⟨r,hr⟩

theorem Once.step (h : Once t) (coherent : Coherent t) (hs : Step patient State.Fresh t t') : Once t' where
  clients := h.step_clients hs
  retirers := h.step_retirers hs
  either := h.step_either hs
  freed := h.step_freed coherent hs
  frees_le := h.step_frees_le coherent hs
  freed_done := h.step_freed_done coherent hs

/-! An object that its creator has not claimed yet cannot be retired. -/

/-- What is being claimed for the first time is not being retired. -/
def Unshared (t : State ι κ) : Prop := ∀ i n, t.role i = .claiming n true → ¬ t.Underway n

/-- A first claim was due before, or the step has just created the object. -/
lemma Step.claiming_cases (hs : Step patient mayRetire t t') {i : ι} {n : ℕ}
    (hc : t'.role i = .claiming n true) : t.role i = .claiming n true ∨
      (n = t.created ∧ t'.retirer = t.retirer ∧ ∀ j, j ≠ i → t'.role j = t.role j) := by
  cases hs with
  | create idle =>
    rcases of_setRole (P := fun r => r = .claiming n true) hc with ⟨rfl,new⟩ | ⟨-,hc⟩
    · cases new
      exact .inr ⟨rfl,rfl,fun j hj => Function.update_of_ne hj _ _⟩
    · exact .inl hc
  | find | claim | reclaim | grant | refuse | dismiss | release | retire | schedule | start
  | abandon =>
    rcases of_setRole (P := fun r => r = .claiming n true) hc with ⟨rfl,new⟩ | ⟨-,hc⟩
    · cases new
    · exact .inl hc
  | _ => exact .inl hc

theorem Unshared.step (h : Unshared t) (coherent : Coherent t) (hs : Step patient mayRetire t t') :
    Unshared t' := by
  intro i n hc hu
  rcases hs.claiming_cases hc with hold | ⟨rfl,sameRetirer,same⟩
  · have hlock : t.lock = some i := (coherent.locks_self hold rfl).1
    rcases hu with ⟨j,hj⟩ | ⟨r,ph,hr⟩
    · rcases hs.retires_cases hj with hj | ⟨-,unlocked,-⟩
      · exact h i n hold (.inl ⟨j,hj⟩)
      · rw [hlock] at unlocked
        cases unlocked
    · rcases hs.retirer_cases hr with ⟨ph',hr⟩ | ⟨-,-,j,hj,-⟩
      · exact h i n hold (.inr ⟨r,ph',hr⟩)
      · exact h i n hold (.inl ⟨j,hj⟩)
  · -- a new object has a number that nobody knew
    rcases hu with ⟨j,hj⟩ | ⟨r,ph,hr⟩
    · by_cases hji : j = i
      · subst j
        rw [hc] at hj
        exact hj
      · rw [same j hji] at hj
        exact Nat.lt_irrefl _ (coherent.retires_lt hj)
    · rw [sameRetirer] at hr
      exact Nat.lt_irrefl _ (coherent.retirer_lt hr)

/-! The lock is not left behind by a client that has no use for it. -/

/-- Whoever has the lock has business with an object under it. -/
def LockInUse (t : State ι κ) : Prop := ∀ i, t.lock = some i → ∃ n, (t.role i).Locks n

omit [DecidableEq ι] in
/-- A client that takes the lock with its new role. -/
lemma lockInUse_taken {i : ι} {n : ℕ} {r : Role} (lock : t'.lock = some i) (role : t'.role i = r)
    (locks : r.Locks n) : LockInUse t' := by
  intro j hj
  rw [lock] at hj
  cases hj
  exact ⟨n,role ▸ locks⟩

/-- A client without the lock goes on. -/
lemma LockInUse.setRole (h : LockInUse t) {i : ι} {old : Role} (role : t.role i = old)
    (free : ∀ n, ¬ old.Locks n) (r : Role) : LockInUse (t.setRole i r) := by
  intro j hj
  obtain ⟨n,hn⟩ := h j hj
  by_cases hji : j = i
  · subst j
    rw [role] at hn
    exact absurd hn (free n)
  · exact ⟨n,by simpa [State.setRole,hji] using hn⟩

theorem LockInUse.step (h : LockInUse t) (hs : Step patient mayRetire t t') : LockInUse t' := by
  cases hs with
  | create | find | retire => exact lockInUse_taken rfl (Function.update_self _ _ _) rfl
  | claim | grant | dismiss | schedule =>
    intro j hj
    cases hj
  | @reclaim i n role | @refuse i n role =>
    intro j hj
    obtain ⟨k,hk⟩ := h j hj
    by_cases hji : j = i
    · subst j
      exact ⟨n,by simp [State.setRole,Role.Locks]⟩
    · exact ⟨k,by simpa [State.setRole,hji] using hk⟩
  | release role | start role | abandon role => exact h.setRole role (fun _ => id) _
  | unlink waiting unlocked => exact h
  | read | drained | free => exact h

/-! Nothing is lost: where no object is retired twice, an object is linked until its own retirer
unlinks it. -/

/-- No two linked objects have the same key, what is being retired is linked until its retirer has
unlinked it, and every object is linked or has been unlinked by its retirer. -/
structure Tracked (t : State ι κ) : Prop where
  keys : ∀ {n n'}, t.linked n → t.linked n' → t.key n = t.key n' → n = n'
  retiring : ∀ {i n}, (t.role i).Retires n → t.linked n
  pending : ∀ {r n ph}, t.retirer r = some (n,ph) → ¬ ph.Unlinked → t.linked n
  tracked : ∀ {n}, n < t.created → t.linked n ∨ ∃ r ph, t.retirer r = some (n,ph) ∧ ph.Unlinked
  done : ∀ {r n}, t.retirer r = some (n,.done) → t.frees n ≠ 0

omit [DecidableEq ι] in
theorem Tracked.empty (linked : ∀ n, ¬ t.linked n) (idle : ∀ i, t.role i = .idle)
    (retirer : ∀ r, t.retirer r = none) (created : t.created = 0) : Tracked t where
  keys h := absurd h (linked _)
  retiring {i n} h := by rw [idle] at h; exact False.elim h
  pending h := by rw [retirer] at h; cases h
  tracked h := by rw [created] at h; exact absurd h (Nat.not_lt_zero _)
  done h := by rw [retirer] at h; cases h

omit [DecidableEq ι] in
/-- A retirer unlinks its own object and no other. -/
lemma Tracked.unlinks (h : Tracked t) (coherent : Coherent t) (once : Once t) {r n : ℕ} {k : κ}
    (waiting : t.retirer r = some (n,.waiting k)) {m : ℕ} (linked : t.linked m) :
    t.key m = k ↔ m = n := by
  have hn : t.linked n := h.pending waiting id
  have hk : k = t.key n := by
    rcases coherent.waiting waiting with hk | hf
    · exact hk
    · cases once.freed hf waiting
  rw [hk]
  exact ⟨fun he => h.keys linked hn he,fun he => he ▸ rfl⟩

lemma Tracked.step_keys (h : Tracked t) (coherent : Coherent t) (hs : Step patient mayRetire t t')
    {n n' : ℕ} (hn : t'.linked n) (hn' : t'.linked n') (he : t'.key n = t'.key n') : n = n' := by
  cases hs with
  | @create i k idle unlocked missing =>
    have hold : ∀ m, t.linked m → Function.update t.key t.created k m = t.key m := fun m hm =>
      Function.update_of_ne (Nat.ne_of_lt (coherent.linked_lt hm)) _ _
    have hnew : Function.update t.key t.created k t.created = k := Function.update_self _ _ _
    change Function.update t.key t.created k n = Function.update t.key t.created k n' at he
    rcases hn with rfl | hn <;> rcases hn' with rfl | hn'
    · rfl
    · rw [hnew,hold n' hn'] at he
      exact absurd he.symm (missing n' hn')
    · rw [hold n hn,hnew] at he
      exact absurd he (missing n hn)
    · rw [hold n hn,hold n' hn'] at he
      exact h.keys hn hn' he
  | unlink => exact h.keys hn.1 hn'.1 he
  | _ => exact h.keys hn hn' he

/-- A step that is no unlinking keeps what is linked. -/
lemma Step.linked_or (hs : Step patient mayRetire t t') {n : ℕ} (hn : t.linked n) : t'.linked n ∨
    ∃ r m k, t.retirer r = some (m,.waiting k) ∧ t'.retirer r = some (m,.draining) ∧
      t'.role = t.role ∧ t.key n = k := by
  cases hs with
  | create => exact .inl (.inr hn)
  | @unlink r m k waiting unlocked =>
    by_cases hk : t.key n = k
    · exact .inr ⟨r,m,k,waiting,Function.update_self _ _ _,rfl,hk⟩
    · exact .inl ⟨hn,hk⟩
  | _ => exact .inl hn

/-- What is linked stays so, or its own retirer has just unlinked it. -/
lemma Tracked.step_linked (h : Tracked t) (coherent : Coherent t) (once : Once t)
    (hs : Step patient mayRetire t t') {n : ℕ} (hn : t.linked n) : t'.linked n ∨
      ∃ r k, t.retirer r = some (n,.waiting k) ∧ t'.retirer r = some (n,.draining) ∧
        t'.role = t.role := by
  rcases hs.linked_or hn with hl | ⟨r,m,k,hr,hr',hrole,hk⟩
  · exact .inl hl
  · obtain rfl := (h.unlinks coherent once hr hn).mp hk
    exact .inr ⟨r,k,hr,hr',hrole⟩

lemma Tracked.step_retiring (h : Tracked t) (coherent : Coherent t) (once : Once t)
    (hs : Step patient State.Fresh t t') {i : ι} {n : ℕ} (hr : (t'.role i).Retires n) :
    t'.linked n := by
  have hlinked : t.linked n ∨ t'.linked n := by
    cases hs with
    | retire idle unlocked linked =>
      rcases of_setRole (P := Role.Retires n) hr with ⟨rfl,rfl⟩ | ⟨-,hr⟩
      · exact .inl linked
      · exact .inl (h.retiring hr)
    | schedule role =>
      rcases of_setRole (P := Role.Retires n) hr with ⟨rfl,rfl⟩ | ⟨-,hr⟩
      · exact .inl (coherent.locks_self role rfl).2
      · exact .inl (h.retiring hr)
    | create | find | claim | reclaim | grant | refuse | dismiss | release | start | abandon =>
      rcases of_setRole (P := Role.Retires n) hr with ⟨rfl,new⟩ | ⟨-,hr⟩
      · exact False.elim new
      · exact .inl (h.retiring hr)
    | _ => exact .inl (h.retiring hr)
  rcases hlinked with hl | hl
  · rcases h.step_linked coherent once hs hl with hl' | ⟨r,k,hw,-,hrole⟩
    · exact hl'
    · rw [hrole] at hr
      exact absurd hw (once.either hr)
  · exact hl

/-- A retirer before its unlinking was so before, or has just been started. -/
lemma Step.pending_cases (hs : Step patient mayRetire t t') {r n : ℕ} {ph : Phase κ}
    (hr : t'.retirer r = some (n,ph)) (pending : ¬ ph.Unlinked) :
    (∃ ph', t.retirer r = some (n,ph') ∧ ¬ ph'.Unlinked) ∨
      ∃ i, t.role i = .scheduled n := by
  cases hs with
  | @start i m r' role free =>
    rcases of_setRetirer hr with ⟨rfl,new⟩ | ⟨-,hr⟩
    · cases new
      exact .inr ⟨i,role⟩
    · exact .inl ⟨ph,hr,pending⟩
  | read old =>
    rcases of_setRetirer hr with ⟨rfl,new⟩ | ⟨-,hr⟩
    · cases new
      exact .inl ⟨_,old,id⟩
    · exact .inl ⟨ph,hr,pending⟩
  | unlink old | drained old | free old =>
    rcases of_setRetirer hr with ⟨rfl,new⟩ | ⟨-,hr⟩
    · cases new
      exact absurd trivial pending
    · exact .inl ⟨ph,hr,pending⟩
  | _ => exact .inl ⟨ph,hr,pending⟩

lemma Tracked.step_pending (h : Tracked t) (coherent : Coherent t) (once : Once t)
    (hs : Step patient State.Fresh t t') {r n : ℕ} {ph : Phase κ}
    (hr : t'.retirer r = some (n,ph)) (pending : ¬ ph.Unlinked) : t'.linked n := by
  have hlinked : t.linked n := by
    rcases hs.pending_cases hr pending with ⟨ph',hr',hpending⟩ | ⟨i,hi⟩
    · exact h.pending hr' hpending
    · have hretires : (t.role i).Retires n := by rw [hi]; rfl
      exact h.retiring hretires
  rcases h.step_linked coherent once hs hlinked with hl | ⟨r',k,hw,hw',-⟩
  · exact hl
  · have hsame : r = r' := (once.step coherent hs).retirers hr hw'
    subst r'
    rw [hw'] at hr
    cases hr
    exact absurd trivial pending

lemma Step.unlinked_kept (hs : Step patient mayRetire t t') {r n : ℕ} {ph : Phase κ}
    (hr : t.retirer r = some (n,ph)) (unlinked : ph.Unlinked) :
    ∃ ph', t'.retirer r = some (n,ph') ∧ ph'.Unlinked := by
  cases hs with
  | @start i m r' role free =>
    have hne : r ≠ r' := by
      rintro rfl
      rw [hr] at free
      cases free
    exact ⟨ph,(Function.update_of_ne hne _ _).trans hr,unlinked⟩
  | @read r' m k old | @unlink r' m k old =>
    have hne : r ≠ r' := by
      rintro rfl
      rw [hr] at old
      cases old
      exact unlinked
    exact ⟨ph,(Function.update_of_ne hne _ _).trans hr,unlinked⟩
  | @drained r' m old | @free r' m old =>
    by_cases hne : r = r'
    · subst r'
      rw [hr] at old
      cases old
      exact ⟨_,Function.update_self _ _ _,trivial⟩
    · exact ⟨ph,(Function.update_of_ne hne _ _).trans hr,unlinked⟩
  | _ => exact ⟨ph,hr,unlinked⟩

lemma Tracked.step_tracked (h : Tracked t) (coherent : Coherent t) (once : Once t)
    (hs : Step patient State.Fresh t t') {n : ℕ} (hn : n < t'.created) :
    t'.linked n ∨ ∃ r ph, t'.retirer r = some (n,ph) ∧ ph.Unlinked := by
  by_cases hold : n < t.created
  · rcases h.tracked hold with hl | ⟨r,ph,hr,hph⟩
    · rcases h.step_linked coherent once hs hl with hl' | ⟨r,k,-,hr',-⟩
      · exact .inl hl'
      · exact .inr ⟨r,_,hr',trivial⟩
    · obtain ⟨ph',hr',hph'⟩ := hs.unlinked_kept hr hph
      exact .inr ⟨r,ph',hr',hph'⟩
  · cases hs with
    | create =>
      have hnew : n = t.created := Nat.le_antisymm (Nat.lt_succ_iff.mp hn) (Nat.not_lt.mp hold)
      exact .inl (.inl hnew)
    | _ => exact absurd hn hold

lemma Tracked.step_done (h : Tracked t) (coherent : Coherent t) (hs : Step patient mayRetire t t')
    {r n : ℕ} (hr : t'.retirer r = some (n,.done)) : t'.frees n ≠ 0 := by
  have hcases : t'.frees n ≠ 0 ∨ t.retirer r = some (n,.done) := by
    cases hs with
    | free old =>
      rcases of_setRetirer hr with ⟨rfl,new⟩ | ⟨-,hr⟩
      · cases new
        left
        change Function.update t.frees n (t.frees n + 1) n ≠ 0
        rw [Function.update_self]
        exact Nat.succ_ne_zero _
      · exact .inr hr
    | start | read | unlink | drained =>
      rcases of_setRetirer hr with ⟨rfl,new⟩ | ⟨-,hr⟩
      · cases new
      · exact .inr hr
    | _ => exact .inr hr
  rcases hcases with hf | hold
  · exact hf
  · have hle := hs.frees_le (coherent.retirer_lt hold)
    have hpos := h.done hold
    omega

theorem Tracked.step (h : Tracked t) (coherent : Coherent t) (once : Once t)
    (hs : Step patient State.Fresh t t') : Tracked t' where
  keys := h.step_keys coherent hs
  retiring := h.step_retiring coherent once hs
  pending := h.step_pending coherent once hs
  tracked := h.step_tracked coherent once hs
  done := h.step_done coherent hs

end Concurrency.Registry
