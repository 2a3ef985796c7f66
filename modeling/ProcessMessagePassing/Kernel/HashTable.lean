import ProcessMessagePassing.Mailbox.Basic
import Mathlib.Algebra.Group.Int.Defs
import Mathlib.Algebra.Group.Nat.Defs
import Mathlib.Data.List.Basic
import Mathlib.Logic.Function.Basic

/-! The hash table from process ids to mailboxes. The buckets hold mailboxes; which process a
mailbox is for is read from the mailbox itself, through `owner`. -/
namespace ProcessMessagePassing

/-- `MAILBOX_HASHTABLE_SIZE` -/
def mailboxHashtableSize : ℕ := 4096

/-- `mailbox_hash`, over the `hash_32` of the kernel. -/
def mailboxHash (hash32 : Pid → ℕ) (key : Pid) : ℕ := hash32 key % mailboxHashtableSize

/-- `hash_32` with all its 32 bits. -/
def goldenHash32 (key : Pid) : ℕ := (key % 2 ^ 32).toNat * 0x9e370001 % 2 ^ 32

/-- The chains of `mailbox_hash_table`. -/
abbrev HashTable := ℕ → List ℕ

namespace HashTable
variable (hash32 : Pid → ℕ) (owner : ℕ → Pid)

/-- `mailbox_manager_init` -/
def init : HashTable := fun _ => []

/-- `__hashtable_get` -/
def hashtableGet (t : HashTable) (key : Pid) : Option ℕ :=
  (t (mailboxHash hash32 key)).find? fun m => owner m = key

/-- `__hashtable_remove`. The entry is taken out of the chain it is in. -/
def hashtableRemove (t : HashTable) (key : Pid) : HashTable :=
  match hashtableGet hash32 owner t key with
  | some m => fun b => (t b).erase m
  | none => t

/-- `__hashtable_put` -/
def hashtablePut (t : HashTable) (key : Pid) (m : ℕ) : HashTable :=
  let t := hashtableRemove hash32 owner t key
  Function.update t (mailboxHash hash32 key) (m :: t (mailboxHash hash32 key))

/-- The mailbox is in some chain. -/
def Linked (t : HashTable) (m : ℕ) : Prop := ∃ b, m ∈ t b

/-- Every mailbox is in the chain of its owner, once, and no owner has two. -/
structure WellFormed (t : HashTable) : Prop where
  bucket : ∀ {b m}, m ∈ t b → b = mailboxHash hash32 (owner m)
  nodup : ∀ b, (t b).Nodup
  unique : ∀ {m m'}, t.Linked m → t.Linked m' → owner m = owner m' → m = m'

variable {hash32 owner} {t : HashTable} {key : Pid} {m : ℕ}

theorem wellFormed_init : WellFormed hash32 owner init where
  bucket h := by cases h
  nodup _ := List.nodup_nil
  unique h := by obtain ⟨b,hb⟩ := h; cases hb

/-- Only the owners of linked mailboxes matter. -/
theorem WellFormed.congr {owner' : ℕ → Pid} (wf : WellFormed hash32 owner t)
    (h : ∀ m, t.Linked m → owner' m = owner m) : WellFormed hash32 owner' t where
  bucket {b m} hm := by rw [h m ⟨b,hm⟩]; exact wf.bucket hm
  nodup := wf.nodup
  unique {m m'} hl hl' ho := wf.unique hl hl' (by rw [← h m hl,← h m' hl',ho])

theorem linked_of_get (h : hashtableGet hash32 owner t key = some m) :
    t.Linked m ∧ owner m = key := by
  refine ⟨⟨_,List.mem_of_find?_eq_some h⟩,?_⟩
  simpa using List.find?_some h

theorem owner_ne_of_get (wf : WellFormed hash32 owner t)
    (h : hashtableGet hash32 owner t key = none) (linked : t.Linked m) : owner m ≠ key := by
  rintro rfl
  obtain ⟨b,hb⟩ := linked
  obtain rfl := wf.bucket hb
  simpa using List.find?_eq_none.mp h m hb

/-- A lookup finds the linked mailbox of the key, if there is one. -/
theorem get_eq_some_iff (wf : WellFormed hash32 owner t) :
    hashtableGet hash32 owner t key = some m ↔ t.Linked m ∧ owner m = key := by
  refine ⟨linked_of_get,fun ⟨hl,hk⟩ => ?_⟩
  cases hg : hashtableGet hash32 owner t key with
  | none => exact absurd hk (owner_ne_of_get wf hg hl)
  | some m' =>
    obtain ⟨hl',hk'⟩ := linked_of_get hg
    rw [wf.unique hl' hl (hk'.trans hk.symm)]

theorem linked_remove (wf : WellFormed hash32 owner t) :
    (hashtableRemove hash32 owner t key).Linked m ↔ t.Linked m ∧ owner m ≠ key := by
  unfold hashtableRemove
  cases hg : hashtableGet hash32 owner t key with
  | none => exact ⟨fun hl => ⟨hl,owner_ne_of_get wf hg hl⟩,And.left⟩
  | some m' =>
    obtain ⟨hl',hk'⟩ := linked_of_get hg
    constructor
    · rintro ⟨b,hb⟩
      have hne : m ≠ m' := by
        rintro rfl
        exact (wf.nodup b).not_mem_erase hb
      refine ⟨⟨b,List.mem_of_mem_erase hb⟩,fun hk => hne ?_⟩
      exact wf.unique ⟨b,List.mem_of_mem_erase hb⟩ hl' (hk.trans hk'.symm)
    · rintro ⟨⟨b,hb⟩,hk⟩
      refine ⟨b,(List.mem_erase_of_ne ?_).mpr hb⟩
      rintro rfl
      exact hk hk'

theorem remove_sublist (b : ℕ) : (hashtableRemove hash32 owner t key b).Sublist (t b) := by
  unfold hashtableRemove
  cases hashtableGet hash32 owner t key with
  | none => exact List.Sublist.refl _
  | some m => exact List.erase_sublist

theorem WellFormed.remove (wf : WellFormed hash32 owner t) :
    WellFormed hash32 owner (hashtableRemove hash32 owner t key) where
  bucket hm := wf.bucket ((remove_sublist _).mem hm)
  nodup b := (remove_sublist b).nodup (wf.nodup b)
  unique hl hl' := wf.unique ((linked_remove wf).mp hl).1 ((linked_remove wf).mp hl').1

theorem linked_put (wf : WellFormed hash32 owner t) {m' : ℕ} :
    (hashtablePut hash32 owner t key m).Linked m' ↔
      m' = m ∨ (t.Linked m' ∧ owner m' ≠ key) := by
  rw [← linked_remove wf]
  unfold hashtablePut
  constructor
  · rintro ⟨b,hb⟩
    by_cases he : b = mailboxHash hash32 key
    · subst b
      rw [Function.update_self,List.mem_cons] at hb
      exact hb.imp_right fun hb => ⟨_,hb⟩
    · rw [Function.update_of_ne he] at hb
      exact .inr ⟨b,hb⟩
  · rintro (rfl | ⟨b,hb⟩)
    · exact ⟨_,by rw [Function.update_self]; exact List.mem_cons_self⟩
    · by_cases he : b = mailboxHash hash32 key
      · subst b
        exact ⟨_,by rw [Function.update_self]; exact List.mem_cons_of_mem _ hb⟩
      · exact ⟨b,by rw [Function.update_of_ne he]; exact hb⟩

/-- A mailbox that is not in the table is put under its owner. -/
theorem WellFormed.put (wf : WellFormed hash32 owner t) (new : ¬ t.Linked m) :
    WellFormed hash32 owner (hashtablePut hash32 owner t (owner m) m) := by
  have hwf : WellFormed hash32 owner (hashtableRemove hash32 owner t (owner m)) := wf.remove
  have hnew : ∀ b, m ∉ hashtableRemove hash32 owner t (owner m) b :=
    fun b hb => new ((linked_remove wf).mp ⟨b,hb⟩).1
  refine ⟨fun {b m'} hm => ?_,fun b => ?_,fun {m₁ m₂} hl hl' ho => ?_⟩
  · unfold hashtablePut at hm
    by_cases he : b = mailboxHash hash32 (owner m)
    · subst b
      rw [Function.update_self,List.mem_cons] at hm
      rcases hm with rfl | hm
      · rfl
      · exact hwf.bucket hm
    · rw [Function.update_of_ne he] at hm
      exact hwf.bucket hm
  · unfold hashtablePut
    by_cases he : b = mailboxHash hash32 (owner m)
    · subst b
      rw [Function.update_self]
      exact List.nodup_cons.mpr ⟨hnew _,hwf.nodup _⟩
    · rw [Function.update_of_ne he]
      exact hwf.nodup b
  · rcases (linked_put wf).mp hl with rfl | ⟨h₁,k₁⟩ <;>
      rcases (linked_put wf).mp hl' with rfl | ⟨h₂,k₂⟩
    · rfl
    · exact absurd ho.symm k₂
    · exact absurd ho k₁
    · exact wf.unique h₁ h₂ ho

theorem WellFormed.put_under (wf : WellFormed hash32 owner t) (new : ¬ t.Linked m)
    (own : owner m = key) : WellFormed hash32 owner (hashtablePut hash32 owner t key m) := by
  subst key
  exact wf.put new

/-- A lookup reads the owners of linked mailboxes only. -/
theorem get_congr {owner' : ℕ → Pid} (wf : WellFormed hash32 owner t)
    (h : ∀ m, t.Linked m → owner' m = owner m) :
    hashtableGet hash32 owner' t key = hashtableGet hash32 owner t key := by
  ext n
  rw [get_eq_some_iff (wf.congr h),get_eq_some_iff wf]
  constructor
  · rintro ⟨hlinked,hn⟩
    exact ⟨hlinked,(h n hlinked).symm.trans hn⟩
  · rintro ⟨hlinked,hn⟩
    exact ⟨hlinked,(h n hlinked).trans hn⟩

theorem get_put_self (wf : WellFormed hash32 owner t) (new : ¬ t.Linked m) (own : owner m = key) :
    hashtableGet hash32 owner (hashtablePut hash32 owner t key m) key = some m := by
  exact (get_eq_some_iff (wf.put_under new own)).mpr ⟨(linked_put wf).mpr (.inl rfl),own⟩

/-- A put leaves the entries of all other keys, in its own chain as well. -/
theorem get_put_of_ne (wf : WellFormed hash32 owner t) (new : ¬ t.Linked m) (own : owner m = key)
    {key' : Pid} (other : key' ≠ key) :
    hashtableGet hash32 owner (hashtablePut hash32 owner t key m) key' =
      hashtableGet hash32 owner t key' := by
  ext n
  rw [get_eq_some_iff (wf.put_under new own),get_eq_some_iff wf,linked_put wf]
  constructor
  · rintro ⟨rfl | ⟨hlinked,-⟩,hkey⟩
    · exact absurd (hkey.symm.trans own) other
    · exact ⟨hlinked,hkey⟩
  · rintro ⟨hlinked,hkey⟩
    refine ⟨.inr ⟨hlinked,?_⟩,hkey⟩
    rw [hkey]
    exact other

theorem get_remove_self (wf : WellFormed hash32 owner t) :
    hashtableGet hash32 owner (hashtableRemove hash32 owner t key) key = none := by
  apply Option.eq_none_iff_forall_ne_some.mpr
  intro n hn
  obtain ⟨hlinked,hkey⟩ := linked_of_get hn
  exact ((linked_remove wf).mp hlinked).2 hkey

/-- A removal leaves the entries of all other keys. -/
theorem get_remove_of_ne (wf : WellFormed hash32 owner t) {key' : Pid} (other : key' ≠ key) :
    hashtableGet hash32 owner (hashtableRemove hash32 owner t key) key' =
      hashtableGet hash32 owner t key' := by
  ext n
  rw [get_eq_some_iff wf.remove,get_eq_some_iff wf,linked_remove wf]
  constructor
  · rintro ⟨⟨hlinked,-⟩,hkey⟩
    exact ⟨hlinked,hkey⟩
  · rintro ⟨hlinked,hkey⟩
    refine ⟨⟨hlinked,?_⟩,hkey⟩
    rw [hkey]
    exact other

end HashTable
end ProcessMessagePassing
