import ProcessMessagePassing.Concurrency.Refinement
import ProcessMessagePassing.Kernel.HashTable
import Mathlib.Data.Finmap

/-! The hash table as a finite map from process ids to mailboxes. Every sequence of operations on
the chains, as their callers use them, is one on the map, whatever the keys collide. -/
namespace ProcessMessagePassing
open Concurrency

namespace HashTable

/-- An operation on the table, with the result of a lookup. -/
inductive TableOp
  | put (key : Pid) (m : ℕ)
  | get (key : Pid) (result : Option ℕ)
  | remove (key : Pid)
  deriving DecidableEq, Repr

/-- The chains, and the owners that the mailboxes have. -/
structure TableState where
  owner : ℕ → Pid
  table : HashTable

/-- The operations as their callers use them: what is put is a mailbox that has just been created,
under its owner. -/
inductive TableStep (hash32 : Pid → ℕ) (s : TableState) : TableOp → TableState → Prop
  | put {key m} (new : ¬ s.table.Linked m) :
      TableStep hash32 s (.put key m)
        ⟨Function.update s.owner m key,
          hashtablePut hash32 (Function.update s.owner m key) s.table key m⟩
  | get {key} : TableStep hash32 s (.get key (hashtableGet hash32 s.owner s.table key)) s
  | remove {key} :
      TableStep hash32 s (.remove key) ⟨s.owner,hashtableRemove hash32 s.owner s.table key⟩

/-- What the table is for. -/
abbrev PidMap := Finmap fun _ : Pid => ℕ

inductive MapStep (f : PidMap) : TableOp → PidMap → Prop
  | put {key m} : MapStep f (.put key m) (f.insert key m)
  | get {key} : MapStep f (.get key (f.lookup key)) f
  | remove {key} : MapStep f (.remove key) (f.erase key)

/-- The chains are in order and have the entries of the map. -/
structure TableState.Represents (hash32 : Pid → ℕ) (s : TableState) (f : PidMap) : Prop where
  wf : WellFormed hash32 s.owner s.table
  get : ∀ key, hashtableGet hash32 s.owner s.table key = f.lookup key

variable {hash32 : Pid → ℕ} {owner : ℕ → Pid} {m : ℕ} {s s' : TableState} {f : PidMap} {op : TableOp}
  {ops : List TableOp}

theorem represents_init (owner : ℕ → Pid) :
    TableState.Represents hash32 ⟨owner,.init⟩ (∅ : PidMap) where
  wf := wellFormed_init
  get _ := rfl

lemma Represents.put (h : s.Represents hash32 f) (new : ¬ s.table.Linked m) (key : Pid) :
    TableState.Represents hash32 ⟨Function.update s.owner m key,
      hashtablePut hash32 (Function.update s.owner m key) s.table key m⟩ (f.insert key m) := by
  have howner : ∀ n, s.table.Linked n → Function.update s.owner m key n = s.owner n := by
    intro n hn
    apply Function.update_of_ne
    rintro rfl
    exact new hn
  have hwf : WellFormed hash32 (Function.update s.owner m key) s.table := h.wf.congr howner
  have hself : Function.update s.owner m key m = key := Function.update_self _ _ _
  constructor
  · exact hwf.put_under new hself
  · intro key'
    by_cases hkey : key' = key
    · subst key'
      rw [Finmap.lookup_insert]
      exact get_put_self hwf new hself
    · rw [Finmap.lookup_insert_of_ne f hkey,← h.get key']
      exact (get_put_of_ne hwf new hself hkey).trans (get_congr h.wf howner)

lemma Represents.remove (h : s.Represents hash32 f) (key : Pid) :
    TableState.Represents hash32 ⟨s.owner,hashtableRemove hash32 s.owner s.table key⟩
      (f.erase key) := by
  constructor
  · exact h.wf.remove
  · intro key'
    by_cases hkey : key' = key
    · subst key'
      rw [Finmap.lookup_erase]
      exact get_remove_self h.wf
    · rw [Finmap.lookup_erase_ne hkey,← h.get key']
      exact get_remove_of_ne h.wf hkey

/-- Every operation on the table is the same operation on the map. -/
theorem Represents.step (h : s.Represents hash32 f) (taken : TableStep hash32 s op s') :
    ∃ f', MapStep f op f' ∧ s'.Represents hash32 f' := by
  cases taken with
  | put new => exact ⟨_,.put,Represents.put h new _⟩
  | @get key =>
    rw [h.get key]
    exact ⟨f,.get,h⟩
  | remove => exact ⟨_,.remove,Represents.remove h _⟩

/-- Every sequence of operations is one on the map. -/
theorem represents_of_steps (h : Steps (TableStep hash32) ⟨owner,.init⟩ ops s) :
    ∃ f, Steps MapStep (∅ : PidMap) ops f ∧ s.Represents hash32 f := by
  induction h with
  | refl => exact ⟨∅,.refl,represents_init owner⟩
  | snoc prior taken ih =>
    obtain ⟨f,hsteps,hf⟩ := ih
    obtain ⟨f',hstep,hf'⟩ := Represents.step hf taken
    exact ⟨f',.snoc hsteps hstep,hf'⟩

end HashTable
end ProcessMessagePassing
