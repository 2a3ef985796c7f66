import Mathlib.Data.Set.Card.Arithmetic
import Mathlib.Logic.ExistsUnique
import Mathlib.Tactic.Common

/-! Objects that are created, handed from place to place, and freed. A place is whatever can have
an object: a list that it is on, or a client that is using it. -/
namespace Concurrency.Custody

variable {π ω : Type*}

@[ext]
structure State (π ω : Type*) where
  created : ω → Prop
  frees : ω → ℕ
  has : π → ω → Prop

/-- The object has been created and not freed. -/
def State.Live (t : State π ω) (x : ω) : Prop := t.created x ∧ t.frees x = 0

/-- An object comes to a place when it is created, moves from one place to another, and is freed by
the place that has it. -/
inductive Step (t t' : State π ω) : Prop
  | create {p x} (new : ¬ t.created x) (created : ∀ y, t'.created y ↔ t.created y ∨ y = x)
      (frees : t'.frees = t.frees) (has : ∀ r y, t'.has r y ↔ t.has r y ∨ r = p ∧ y = x)
  | discard {x} (new : ¬ t.created x) (created : ∀ y, t'.created y ↔ t.created y ∨ y = x)
      (freed : t'.frees x = t.frees x + 1) (kept : ∀ y, y ≠ x → t'.frees y = t.frees y)
      (has : t'.has = t.has)
  | move {p q x} (source : t.has p x) (created : t'.created = t.created)
      (frees : t'.frees = t.frees)
      (has : ∀ r y, t'.has r y ↔ r = q ∧ y = x ∨ t.has r y ∧ y ≠ x)
  | free {p} {gone : ω → Prop} (source : ∀ x, gone x → t.has p x)
      (created : t'.created = t.created) (freed : ∀ x, gone x → t'.frees x = t.frees x + 1)
      (kept : ∀ x, ¬ gone x → t'.frees x = t.frees x)
      (has : ∀ r y, t'.has r y ↔ t.has r y ∧ ¬ gone y)

/-- The place loses an object that it has. -/
structure Drop (t t' : State π ω) (p : π) (x : ω) : Prop where
  source : t.has p x
  created : t'.created = t.created
  frees : t'.frees = t.frees
  has : ∀ r y, t'.has r y ↔ t.has r y ∧ y ≠ x

/-- Every object that a place has is live, no two places have the same, and none is freed twice. -/
structure Invariant (t : State π ω) : Prop where
  live : ∀ p x, t.has p x → t.Live x
  unique : ∀ p q x, t.has p x → t.has q x → p = q
  once : ∀ x, t.frees x ≤ 1
  fresh : ∀ x, ¬ t.created x → t.frees x = 0

/-- Every live object has a place. -/
def Accounted (t : State π ω) : Prop := ∀ x, t.Live x → ∃ p, t.has p x

variable {t t' : State π ω} {p : π} {x : ω}

lemma Invariant.not_has (inv : Invariant t) (new : ¬ t.created x) (p : π) : ¬ t.has p x :=
  fun h => new (inv.live p x h).1

/-- An object that is not new and not freed has stayed live. -/
lemma live_of_eq (created : t'.created = t.created) (frees : t'.frees = t.frees) :
    t'.Live x ↔ t.Live x := by
  unfold State.Live
  rw [created,frees]

theorem Invariant.step (inv : Invariant t) (h : Step t t') : Invariant t' := by
  cases h with
  | @create p x new created frees has =>
    constructor
    · intro r y hy
      unfold State.Live
      rw [created,frees]
      rcases (has r y).mp hy with hold | ⟨-,rfl⟩
      · obtain ⟨hc,hf⟩ := inv.live r y hold
        exact ⟨.inl hc,hf⟩
      · exact ⟨.inr rfl,inv.fresh y new⟩
    · intro r r' y hr hr'
      rcases (has r y).mp hr with hr | ⟨rfl,rfl⟩
      · rcases (has r' y).mp hr' with hr' | ⟨-,rfl⟩
        · exact inv.unique r r' y hr hr'
        · exact absurd hr (inv.not_has new r)
      · rcases (has r' y).mp hr' with hr' | ⟨rfl,-⟩
        · exact absurd hr' (inv.not_has new r')
        · rfl
    · rw [frees]
      exact inv.once
    · intro y hy
      rw [frees]
      rw [created] at hy
      exact inv.fresh y fun hc => hy (.inl hc)
  | @discard x new created freed kept has =>
    constructor
    · intro r y hy
      rw [has] at hy
      obtain ⟨hc,hf⟩ := inv.live r y hy
      have hne : y ≠ x := by
        rintro rfl
        exact new hc
      exact ⟨(created y).mpr (.inl hc),(kept y hne).trans hf⟩
    · rw [has]
      exact inv.unique
    · intro y
      by_cases hy : y = x
      · subst y
        have hold := inv.fresh x new
        omega
      · rw [kept y hy]
        exact inv.once y
    · intro y hy
      rw [created,not_or] at hy
      rw [kept y hy.2]
      exact inv.fresh y hy.1
  | @move p q x source created frees has =>
    constructor
    · intro r y hy
      rw [live_of_eq created frees]
      rcases (has r y).mp hy with ⟨-,rfl⟩ | ⟨hold,-⟩
      · exact inv.live p y source
      · exact inv.live r y hold
    · intro r r' y hr hr'
      rcases (has r y).mp hr with ⟨rfl,rfl⟩ | ⟨hr,hne⟩
      · rcases (has r' y).mp hr' with ⟨rfl,-⟩ | ⟨-,hne⟩
        · rfl
        · exact absurd rfl hne
      · rcases (has r' y).mp hr' with ⟨-,rfl⟩ | ⟨hr',-⟩
        · exact absurd rfl hne
        · exact inv.unique r r' y hr hr'
    · rw [frees]
      exact inv.once
    · rw [created,frees]
      exact inv.fresh
  | @free p gone source created freed kept has =>
    constructor
    · intro r y hy
      obtain ⟨hold,hkept⟩ := (has r y).mp hy
      unfold State.Live
      rw [created,kept y hkept]
      exact inv.live r y hold
    · intro r r' y hr hr'
      exact inv.unique r r' y ((has r y).mp hr).1 ((has r' y).mp hr').1
    · intro y
      by_cases hy : gone y
      · have hold := (inv.live p y (source y hy)).2
        have hnew := freed y hy
        omega
      · rw [kept y hy]
        exact inv.once y
    · intro y hy
      rw [created] at hy
      have hkept : ¬ gone y := fun hg => hy (inv.live p y (source y hg)).1
      rw [kept y hkept]
      exact inv.fresh y hy

theorem Invariant.drop (inv : Invariant t) (h : Drop t t' p x) : Invariant t' where
  live r y hy := (live_of_eq h.created h.frees).mpr (inv.live r y ((h.has r y).mp hy).1)
  unique r r' y hr hr' := inv.unique r r' y ((h.has r y).mp hr).1 ((h.has r' y).mp hr').1
  once := h.frees ▸ inv.once
  fresh := h.created ▸ h.frees ▸ inv.fresh

/-- Nothing gets lost but what is dropped. -/
theorem Accounted.step (acc : Accounted t) (h : Step t t') : Accounted t' := by
  intro y hy
  cases h with
  | @create p x new created frees has =>
    obtain ⟨hc,hf⟩ := hy
    rcases (created y).mp hc with hold | rfl
    · obtain ⟨r,hr⟩ := acc y ⟨hold,frees ▸ hf⟩
      exact ⟨r,(has r y).mpr (.inl hr)⟩
    · exact ⟨p,(has p y).mpr (.inr ⟨rfl,rfl⟩)⟩
  | @discard x new created freed kept has =>
    obtain ⟨hc,hf⟩ := hy
    rcases (created y).mp hc with hold | rfl
    · have hne : y ≠ x := by
        rintro rfl
        exact new hold
      rw [kept y hne] at hf
      rw [has]
      exact acc y ⟨hold,hf⟩
    · rw [freed] at hf
      cases hf
  | @move p q x source created frees has =>
    rw [live_of_eq created frees] at hy
    by_cases hx : y = x
    · exact ⟨q,(has q y).mpr (.inl ⟨rfl,hx⟩)⟩
    · obtain ⟨r,hr⟩ := acc y hy
      exact ⟨r,(has r y).mpr (.inr ⟨hr,hx⟩)⟩
  | @free p gone source created freed kept has =>
    obtain ⟨hc,hf⟩ := hy
    have hkept : ¬ gone y := by
      intro hg
      rw [freed y hg] at hf
      cases hf
    rw [created] at hc
    rw [kept y hkept] at hf
    obtain ⟨r,hr⟩ := acc y ⟨hc,hf⟩
    exact ⟨r,(has r y).mpr ⟨hr,hkept⟩⟩

/-- What is dropped is lost. -/
theorem not_accounted_of_drop (inv : Invariant t) (h : Drop t t' p x) : ¬ Accounted t' := by
  intro acc
  obtain ⟨r,hr⟩ := acc x ((live_of_eq h.created h.frees).mpr (inv.live p x h.source))
  exact ((h.has r x).mp hr).2 rfl

/-- Where everything is accounted for, the live objects are the ones that have one place each. -/
theorem Accounted.live_iff (acc : Accounted t) (inv : Invariant t) (x : ω) :
    t.Live x ↔ ∃! p, t.has p x := by
  constructor
  · intro hlive
    obtain ⟨p,hp⟩ := acc x hlive
    exact ⟨p,hp,fun q hq => inv.unique q p x hq hp⟩
  · rintro ⟨p,hp,-⟩
    exact inv.live p x hp

/-- A live object that no place has. -/
def State.Lost (t : State π ω) (x : ω) : Prop := t.Live x ∧ ∀ p, ¬ t.has p x

/-- What is lost stays lost, and nothing gets lost but what is dropped. -/
theorem Step.lost_iff (h : Step t t') : t'.Lost x ↔ t.Lost x := by
  unfold State.Lost State.Live
  cases h with
  | @create p y new created frees has =>
    simp only [created,frees,has]
    by_cases hx : x = y
    · subst x
      constructor
      · rintro ⟨-,hnowhere⟩
        exact absurd (.inr ⟨rfl,rfl⟩) (hnowhere p)
      · rintro ⟨⟨hcreated,-⟩,-⟩
        exact absurd hcreated new
    · simp [hx]
  | @discard y new created freed kept has =>
    simp only [created,has]
    by_cases hx : x = y
    · subst x
      simp [new,freed]
    · rw [kept x hx]
      simp [hx]
  | @move p q y source created frees has =>
    simp only [created,frees,has]
    by_cases hx : x = y
    · subst x
      constructor
      · rintro ⟨-,hnowhere⟩
        exact absurd (.inl ⟨rfl,rfl⟩) (hnowhere q)
      · rintro ⟨-,hnowhere⟩
        exact absurd source (hnowhere p)
    · simp [hx]
  | @free p gone source created freed kept has =>
    simp only [created,has]
    by_cases hx : gone x
    · constructor
      · rintro ⟨⟨-,hfrees⟩,-⟩
        rw [freed x hx] at hfrees
        cases hfrees
      · rintro ⟨-,hnowhere⟩
        exact absurd (source x hx) (hnowhere p)
    · rw [kept x hx]
      simp [hx]

theorem Drop.lost_iff (h : Drop t t' p x) (inv : Invariant t) {y : ω} :
    t'.Lost y ↔ t.Lost y ∨ y = x := by
  unfold State.Lost
  rw [live_of_eq h.created h.frees]
  simp only [h.has]
  by_cases hy : y = x
  · subst y
    simp [inv.live p x h.source]
  · simp [hy]

/-- The books balance: what has been created is at one place, or freed, or lost. -/
theorem Invariant.ledger (inv : Invariant t) (x : ω) [Decidable (t.Lost x)]
    [Decidable (t.created x)] :
    {p | t.has p x}.encard + t.frees x + (if t.Lost x then 1 else 0) =
      if t.created x then 1 else 0 := by
  by_cases hplace : ∃ p, t.has p x
  · obtain ⟨p,hp⟩ := hplace
    obtain ⟨hcreated,hfrees⟩ := inv.live p x hp
    have hplaces : {q | t.has q x} = {p} := by
      ext q
      exact ⟨fun hq => inv.unique q p x hq hp,by rintro rfl; exact hp⟩
    have hkept : ¬ t.Lost x := fun hlost => hlost.2 p hp
    simp [hplaces,hfrees,hkept,hcreated]
  · have hplaces : {q | t.has q x} = ∅ := by
      ext q
      exact ⟨fun hq => absurd ⟨q,hq⟩ hplace,False.elim⟩
    have hlost : t.Lost x ↔ t.Live x := ⟨And.left,fun hlive => ⟨hlive,fun p hp => hplace ⟨p,hp⟩⟩⟩
    rw [hplaces,Set.encard_empty,zero_add]
    by_cases hcreated : t.created x
    · have honce := inv.once x
      rcases Nat.le_one_iff_eq_zero_or_eq_one.mp honce with hfrees | hfrees
      · simp [hlost,State.Live,hcreated,hfrees]
      · simp [hlost,State.Live,hcreated,hfrees]
    · simp [hlost,State.Live,hcreated,inv.fresh x hcreated]

/-- There are no more live objects than the places have room for, and those that are lost. -/
theorem State.live_le (t : State π ω) {places : Finset π} (held : ∀ p x, t.has p x → p ∈ places)
    {room : π → ℕ} (fits : ∀ p, {x | t.has p x}.encard ≤ room p) :
    {x | t.Live x}.encard ≤ ∑ p ∈ places, (room p : ℕ∞) + {x | t.Lost x}.encard := by
  have hcover : {x | t.Live x} ⊆ (⋃ p ∈ places, {x | t.has p x}) ∪ {x | t.Lost x} := by
    intro x hlive
    by_cases hplace : ∃ p, t.has p x
    · obtain ⟨p,hp⟩ := hplace
      exact .inl (Set.mem_biUnion (held p x hp) hp)
    · exact .inr ⟨hlive,fun p hp => hplace ⟨p,hp⟩⟩
  calc {x | t.Live x}.encard
      ≤ ((⋃ p ∈ places, {x | t.has p x}) ∪ {x | t.Lost x}).encard := Set.encard_le_encard hcover
    _ ≤ (⋃ p ∈ places, {x | t.has p x}).encard + {x | t.Lost x}.encard := Set.encard_union_le _ _
    _ ≤ ∑ p ∈ places, (room p : ℕ∞) + {x | t.Lost x}.encard := by
      refine add_le_add_left ?_ _
      exact (places.set_encard_biUnion_le _).trans (Finset.sum_le_sum fun p _ => fits p)

end Concurrency.Custody
