import ProcessMessagePassing.Kernel.Loader
import Mathlib.Data.Nat.ModEq

/-! What a load and an unload do to memory. The two functions write nothing but the five entries, with
the protection off where they run; at every point of them the entries and the registers are known. -/
namespace ProcessMessagePassing
open Concurrency

instance : Fintype Entry where
  elems := {.cs3013Syscall1,.cs3013Syscall2,.cs3013Syscall3,.exit,.exitGroup}
  complete e := by cases e <;> decide

/-- What comes after a statement in the function it stands in. -/
def ModuleState.Follow (state : ModuleState) (xs : List LoadStatement) : LoadStatement → Prop
  | .plain (.store _) => state = .coming ∧ ∀ e, .plain (.replace e) ∈ xs
  | .plain (.replace _) => state = .coming ∧ patching xs = true ∧ ∀ e, .plain (.store e) ∉ xs
  | .plain (.revert _) => state = .going ∧ patching xs = true
  | .disablePageProtection => patching xs = true
  | .enablePageProtection => xs = []
  | _ => True

instance (state : ModuleState) (xs : List LoadStatement) (x : LoadStatement) :
    Decidable (state.Follow xs x) := by
  unfold ModuleState.Follow
  split <;> infer_instance

instance {M : Machine} (image : Image M) (s : Loader M) (act : Loader.Action M) :
    Decidable (Loader.Sane image s act) := by
  unfold Loader.Sane
  split
  · split <;> infer_instance
  all_goals infer_instance

lemma follow_of_suffix {state : ModuleState} {x : LoadStatement} {xs : List LoadStatement}
    (h : x :: xs <:+ state.code) : state.Follow xs x ∧ x ∉ xs := by
  have hall : ∀ state ∈ [ModuleState.coming,.going], ∀ l ∈ state.code.tails, ∀ x ∈ l.head?,
      state.Follow l.tail x ∧ x ∉ l.tail := by
    decide +kernel
  cases state with
  | coming => exact hall .coming (by simp) _ ((List.mem_tails _ _).mpr h) x rfl
  | going => exact hall .going (by simp) _ ((List.mem_tails _ _).mpr h) x rfl
  | unloaded | live | gone => cases List.suffix_nil.mp h

lemma finish_finish (state : ModuleState) : state.finish.finish = state.finish := by
  cases state <;> rfl

lemma replaces_finish (rest : List LoadStatement) (e : Entry) (state : ModuleState) :
    state.finish.replaces rest e = state.replaces rest e := by
  cases state <;> rfl

namespace Machine
variable {M : Machine}

lemma toNat_slot (sct : M.Word) (nr : ℕ) :
    (M.slot sct nr).toNat = (sct.toNat + nr * 2 ^ M.shift) % 2 ^ M.bits := by
  unfold slot sizeofPointer
  rw [BitVec.toNat_add,BitVec.toNat_mul,BitVec.toNat_ofNat,BitVec.toNat_ofNat,← Nat.mul_mod,
    Nat.add_mod_mod]

lemma slot_injective {sct : M.Word} {a b : ℕ} (ha : a < M.words) (hb : b < M.words)
    (h : M.slot sct a = M.slot sct b) : a = b := by
  have hmod : sct.toNat + a * 2 ^ M.shift ≡ sct.toNat + b * 2 ^ M.shift [MOD 2 ^ M.bits] := by
    have hnat := congrArg BitVec.toNat h
    rwa [toNat_slot,toNat_slot] at hnat
  have hlt : ∀ n, n < M.words → n * 2 ^ M.shift < 2 ^ M.bits := by
    intro n hn
    rw [← M.two_pow_bits]
    exact Nat.mul_lt_mul_of_pos_right hn (Nat.two_pow_pos _)
  have hcancel := Nat.ModEq.add_left_cancel' _ hmod
  have heq := Nat.ModEq.eq_of_lt_of_lt hcancel (hlt a ha) (hlt b hb)
  exact Nat.eq_of_mul_eq_mul_right (Nat.two_pow_pos _) heq

lemma unprotect_and (w : M.Word) : w &&& ~~~M.writeProtect &&& M.writeProtect = 0 := by
  rw [BitVec.and_assoc,BitVec.and_comm (~~~M.writeProtect),BitVec.and_not_self]
  simp

lemma unprotect_protect (w : M.Word) :
    (w ||| M.writeProtect) &&& ~~~M.writeProtect = w &&& ~~~M.writeProtect := by
  ext i hi
  simp only [BitVec.getElem_and,BitVec.getElem_or,BitVec.getElem_not]
  cases w[i] <;> cases M.writeProtect[i] <;> rfl

lemma protect_unprotect (w : M.Word) :
    w &&& ~~~M.writeProtect ||| M.writeProtect = w ||| M.writeProtect := by
  ext i hi
  simp only [BitVec.getElem_and,BitVec.getElem_or,BitVec.getElem_not]
  cases w[i] <;> cases M.writeProtect[i] <;> rfl

end Machine

section Statements
variable {x : LoadStatement} {xs : List LoadStatement} {state : ModuleState} {e : Entry}

lemma replaces_cons (replace : x ≠ .plain (.replace e)) (revert : x ≠ .plain (.revert e)) :
    state.replaces (x :: xs) e = state.replaces xs e := by
  cases state <;> simp [ModuleState.replaces,replace.symm,revert.symm]

lemma patching_cons (disable : x ≠ .disablePageProtection) (enable : x ≠ .enablePageProtection) :
    patching (x :: xs) = patching xs := by
  simp [patching,disable.symm,enable.symm]

end Statements

namespace Image
variable {M : Machine} (image : Image M)

lemma slot_injective : Function.Injective image.slot := fun e e' h =>
  image.nr_injective (Machine.slot_injective (image.nr_lt e) (image.nr_lt e') h)

end Image

namespace Loader
variable {M : Machine} {image : Image M} {boot : Boot image} {s s' : Loader M} {memory : Bool}
  {x : LoadStatement} {xs : List LoadStatement} {e : Entry}

@[simp] lemma sysCallTable_runStatement :
    (s.runStatement image memory x).sysCallTable = s.sysCallTable := by
  cases x with
  | plain x => cases x <;> rfl
  | _ => rfl

@[simp] lemma oops_runStatement : (s.runStatement image memory x).oops = s.oops := by
  cases x with
  | plain x => cases x <;> rfl
  | _ => rfl

@[simp] lemma cpu_runStatement : (s.runStatement image memory x).cpu = s.cpu := by
  cases x with
  | plain x => cases x <;> rfl
  | _ => rfl

lemma memory_runStatement {a : M.Word}
    (elsewhere : ∀ e, x = .plain (.replace e) ∨ x = .plain (.revert e) → a ≠ s.entry image e) :
    (s.runStatement image memory x).memory a = s.memory a := by
  cases x with
  | plain x =>
    cases x with
    | replace e => exact Function.update_of_ne (elsewhere e (.inl rfl)) _ _
    | revert e => exact Function.update_of_ne (elsewhere e (.inr rfl)) _ _
    | _ => rfl
  | _ => rfl

lemma ref_runStatement (store : x ≠ .plain (.store e)) :
    (s.runStatement image memory x).ref e = s.ref e := by
  cases x with
  | plain x =>
    cases x with
    | store e' =>
      have hne : e ≠ e' := fun he => store (he ▸ rfl)
      exact Function.update_of_ne hne _ _
    | _ => rfl
  | _ => rfl

lemma cr0_runStatement (disable : x ≠ .disablePageProtection) (enable : x ≠ .enablePageProtection) :
    (s.runStatement image memory x).cr0 = s.cr0 := by
  cases x with
  | plain x => cases x <;> rfl
  | disablePageProtection => exact absurd rfl disable
  | enablePageProtection => exact absurd rfl enable

/-- What memory and the registers hold at every point of a load and an unload. -/
structure PatchInvariant (boot : Boot image) (s : Loader M) : Prop where
  fine : s.oops = false
  code : s.rest <:+ s.state.code
  table : s.state ≠ .unloaded → s.sysCallTable = image.table
  saved : s.state ≠ .unloaded → ∀ e, .plain (.store e) ∉ s.rest → s.ref e = boot.word e
  entries : ∀ e, s.memory (image.slot e) =
    some (if s.state.replaces s.rest e then image.handler e else boot.word e)
  unprotected : patching s.rest = true → s.cr0 s.cpu = boot.cr0 s.cpu &&& ~~~M.writeProtect
  registers : ∀ c, (patching s.rest = true → c ≠ s.cpu) →
    s.cr0 c = boot.cr0 c ∨ s.cr0 c = boot.cr0 c ||| M.writeProtect

lemma patchInvariant_initial {sig : Actor → Bool} : PatchInvariant boot (initial boot sig) where
  fine := rfl
  code := List.suffix_refl _
  table h := absurd rfl h
  saved h := absurd rfl h
  entries := boot.mapped
  unprotected h := by cases h
  registers c _ := .inl rfl

namespace PatchInvariant
variable (inv : PatchInvariant boot s)
include inv

lemma rest_eq_nil (idle : s.state.code = []) : s.rest = [] :=
  List.suffix_nil.mp (idle ▸ inv.code)

lemma table_ne_zero (loaded : s.state ≠ .unloaded) : s.sysCallTable ≠ 0 := by
  rw [inv.table loaded]
  exact image.table_ne

/-- While the protection is on, that is so on every processor. -/
lemma closed (protection : patching s.rest = false) (c : ℕ) :
    s.cr0 c = boot.cr0 c ∨ s.cr0 c = boot.cr0 c ||| M.writeProtect := by
  refine inv.registers c fun h => ?_
  rw [protection] at h
  cases h

section Statement
variable (rest : s.rest = x :: xs)
include rest

lemma running : s.state ≠ .unloaded := by
  intro hstate
  have hcode := inv.code
  rw [rest,hstate] at hcode
  cases List.suffix_nil.mp hcode

lemma follow : s.state.Follow xs x ∧ x ∉ xs := follow_of_suffix (rest ▸ inv.code)

lemma entry_eq (e : Entry) : s.entry image e = image.slot e := by
  unfold entry Image.slot
  rw [inv.table (inv.running rest)]

lemma unprotected_of_write (write : x = .plain (.replace e) ∨ x = .plain (.revert e)) :
    s.cr0 s.cpu &&& M.writeProtect = 0 := by
  have hpatching : patching s.rest = true := by
    have hfollow := (inv.follow rest).1
    rw [rest]
    rcases write with rfl | rfl
    · rw [patching_cons (by simp) (by simp)]
      exact hfollow.2.1
    · rw [patching_cons (by simp) (by simp)]
      exact hfollow.2
  rw [inv.unprotected hpatching,Machine.unprotect_and]

lemma not_writeFaults (write : x = .plain (.replace e) ∨ x = .plain (.revert e)) :
    s.writeFaults image (s.entry image e) = false := by
  unfold writeFaults
  rw [inv.entry_eq rest,inv.entries,inv.unprotected_of_write rest write]
  simp

/-- No statement faults. -/
lemma not_faults : s.faults image x = false := by
  cases x with
  | plain x =>
    cases x with
    | store e =>
      change (s.memory (s.entry image e)).isNone = false
      rw [inv.entry_eq rest,inv.entries]
      rfl
    | replace e => exact inv.not_writeFaults rest (.inl rfl)
    | revert e => exact inv.not_writeFaults rest (.inr rfl)
    | _ => rfl
  | _ => rfl

lemma saved_statement (e : Entry) (stored : .plain (.store e) ∉ xs) :
    (s.runStatement image memory x).ref e = boot.word e := by
  by_cases hstore : x = .plain (.store e)
  · subst x
    -- the entry is still that of the kernel when it is stored
    have hfollow := (inv.follow rest).1
    have hkernel : s.state.replaces s.rest e = false := by
      rw [rest,hfollow.1,ModuleState.replaces,decide_eq_false_iff_not,not_not]
      exact List.mem_cons_of_mem _ (hfollow.2 e)
    have hword := inv.entries e
    rw [hkernel] at hword
    change Function.update s.ref e ((s.memory (s.entry image e)).getD 0) e = boot.word e
    rw [Function.update_self,inv.entry_eq rest,hword]
    rfl
  · rw [ref_runStatement hstore]
    refine inv.saved (inv.running rest) e ?_
    rw [rest]
    exact fun hmem => (List.mem_cons.mp hmem).elim (fun he => hstore he.symm) stored

lemma entries_statement (e : Entry) : (s.runStatement image memory x).memory (image.slot e) =
    some (if s.state.replaces xs e then image.handler e else boot.word e) := by
  obtain ⟨hfollow,hnot⟩ := inv.follow rest
  by_cases hreplace : x = .plain (.replace e)
  · subst x
    rw [hfollow.1,ModuleState.replaces,decide_eq_true hnot,if_pos rfl]
    change Function.update s.memory (s.entry image e) (some (image.handler e)) _ = _
    rw [inv.entry_eq rest,Function.update_self]
  by_cases hrevert : x = .plain (.revert e)
  · subst x
    rw [hfollow.1,ModuleState.replaces,decide_eq_false hnot,if_neg Bool.false_ne_true]
    have hstored : .plain (.store e) ∉ s.rest := by
      have hcode := inv.code
      rw [hfollow.1] at hcode
      intro hmem
      have hend : .plain (.store e) ∉ loaderEnd := by cases e <;> decide
      exact hend (hcode.mem hmem)
    change Function.update s.memory (s.entry image e) (some (s.ref e)) _ = _
    rw [inv.entry_eq rest,Function.update_self,inv.saved (inv.running rest) e hstored]
  have hne : ∀ e', x = .plain (.replace e') ∨ x = .plain (.revert e') →
      image.slot e ≠ s.entry image e' := by
    rintro e' hx hslot
    rw [inv.entry_eq rest] at hslot
    obtain rfl := image.slot_injective hslot
    rcases hx with hx | hx
    · exact hreplace hx
    · exact hrevert hx
  rw [memory_runStatement hne,inv.entries,rest,replaces_cons hreplace hrevert]

lemma registers_statement (memory : Bool) :
    (patching xs = true → (s.runStatement image memory x).cr0 s.cpu =
      boot.cr0 s.cpu &&& ~~~M.writeProtect) ∧
    ∀ c, (patching xs = true → c ≠ s.cpu) → (s.runStatement image memory x).cr0 c = boot.cr0 c ∨
      (s.runStatement image memory x).cr0 c = boot.cr0 c ||| M.writeProtect := by
  have hfollow := (inv.follow rest).1
  have hunprotected := inv.unprotected
  have hregisters := inv.registers
  rw [rest] at hunprotected hregisters
  by_cases hdisable : x = .disablePageProtection
  · subst x
    have hpatching : patching xs = true := hfollow
    have hcr0 : (s.runStatement image memory .disablePageProtection).cr0 =
        Function.update s.cr0 s.cpu (s.cr0 s.cpu &&& ~~~M.writeProtect) := rfl
    have hclosed : patching (.disablePageProtection :: xs) = false := by simp [patching]
    have hold : ∀ c, s.cr0 c = boot.cr0 c ∨ s.cr0 c = boot.cr0 c ||| M.writeProtect := by
      intro c
      refine hregisters c fun h => ?_
      rw [hclosed] at h
      cases h
    rw [hcr0]
    constructor
    · intro _
      rw [Function.update_self]
      rcases hold s.cpu with h | h
      · rw [h]
      · rw [h,Machine.unprotect_protect]
    · intro c hc
      rw [Function.update_of_ne (hc hpatching)]
      exact hold c
  by_cases henable : x = .enablePageProtection
  · subst x
    obtain rfl : xs = [] := hfollow
    have hcr0 : (s.runStatement image memory .enablePageProtection).cr0 =
        Function.update s.cr0 s.cpu (s.cr0 s.cpu ||| M.writeProtect) := rfl
    rw [hcr0]
    constructor
    · intro h
      cases h
    · intro c _
      by_cases hc : c = s.cpu
      · subst c
        right
        rw [Function.update_self,hunprotected rfl,Machine.protect_unprotect]
      · rw [Function.update_of_ne hc]
        exact hregisters c fun _ => hc
  rw [patching_cons hdisable henable] at hunprotected hregisters
  rw [cr0_runStatement hdisable henable]
  exact ⟨hunprotected,hregisters⟩

end Statement

lemma statement {hash32 : Pid → ℕ} (h : step image hash32 s (.statement memory) = some s') :
    PatchInvariant boot s' := by
  simp only [step] at h
  cases hrest : s.rest with
  | nil =>
    rw [hrest] at h
    cases h
  | cons x xs =>
    rw [hrest] at h
    dsimp only at h
    rw [inv.not_faults hrest,if_neg Bool.false_ne_true] at h
    cases h
    have hrunning := inv.running hrest
    have hcode : xs <:+ s.state.code := by
      have hold := inv.code
      rw [hrest] at hold
      exact (List.suffix_cons x xs).trans hold
    obtain ⟨hunprotected,hregisters⟩ := inv.registers_statement hrest memory
    constructor
    case fine => exact oops_runStatement.trans inv.fine
    case code =>
      dsimp only
      split_ifs with hxs
      · rw [hxs]
        exact List.nil_suffix
      · exact hcode
    case table =>
      intro _
      exact sysCallTable_runStatement.trans (inv.table hrunning)
    case saved =>
      intro _ e hstored
      exact inv.saved_statement hrest e hstored
    case entries =>
      intro e
      have hstate : (if xs = [] then s.state.finish else s.state).replaces xs e =
          s.state.replaces xs e := by
        split_ifs
        · exact replaces_finish xs e s.state
        · rfl
      dsimp only
      rw [inv.entries_statement hrest,hstate]
    case unprotected =>
      dsimp only
      rw [cpu_runStatement]
      exact hunprotected
    case registers =>
      dsimp only
      rw [cpu_runStatement]
      exact hregisters

lemma insmod {hash32 : Pid → ℕ} (h : step image hash32 s .insmod = some s')
    (sane : Sane image s .insmod) : PatchInvariant boot s' := by
  simp only [step] at h
  split_ifs at h with hstate
  have hrest : s.rest = [] := inv.rest_eq_nil (by rw [hstate]; rfl)
  -- a load that is cancelled changes nothing that the module relies on
  have hcancelled : PatchInvariant boot { s with sysCallTable := 0 } :=
    { inv with
      table := fun h => absurd hstate h
      saved := fun h => absurd hstate h }
  split at h
  · next sct hfound =>
    split_ifs at h with hzero
    · cases h
      exact hcancelled
    · cases h
      simp only [Sane,hfound] at sane
      obtain rfl := sane.resolve_left hzero
      have hkernel : ∀ e, s.memory (image.slot e) = some (boot.word e) := by
        intro e
        rw [inv.entries,hstate,hrest]
        rfl
      have hclosed : patching s.rest = false := by rw [hrest]; rfl
      exact
        { fine := inv.fine
          code := List.suffix_refl _
          table := fun _ => rfl
          saved := by
            intro _ e hstored
            have hstart : .plain (.store e) ∈ loaderStart := by cases e <;> decide
            exact absurd hstart hstored
          entries := by
            intro e
            have hstart : ModuleState.coming.replaces loaderStart e = false := by cases e <;> decide
            rw [hstart]
            exact hkernel e
          unprotected := fun h => by cases h
          registers := fun c _ => inv.closed hclosed c }
  · cases h
    exact hcancelled
  · next hfound =>
    simp only [Sane,hfound] at sane
  · cases h

lemma rmmod {hash32 : Pid → ℕ} (h : step image hash32 s .rmmod = some s') :
    PatchInvariant boot s' := by
  simp only [step] at h
  split_ifs at h with hstate hzero
  all_goals have hlive : s.state ≠ .unloaded := by rw [hstate]; exact ModuleState.noConfusion
  · exact absurd hzero (inv.table_ne_zero hlive)
  · cases h
    have hrest : s.rest = [] := inv.rest_eq_nil (by rw [hstate]; rfl)
    have hclosed : patching s.rest = false := by rw [hrest]; rfl
    exact
      { fine := inv.fine
        code := List.suffix_refl _
        table := fun _ => inv.table hlive
        saved := by
          intro _ e _
          refine inv.saved hlive e ?_
          rw [hrest]
          exact List.not_mem_nil
        entries := by
          intro e
          have hend : ModuleState.going.replaces loaderEnd e = true := by cases e <;> decide
          have hword := inv.entries e
          rw [hstate,hrest] at hword
          rw [hend]
          exact hword
        unprotected := fun h => by cases h
        registers := fun c _ => inv.closed hclosed c }

theorem stepped {hash32 : Pid → ℕ} {act : Action M} (h : step image hash32 s act = some s')
    (sane : Sane image s act) : PatchInvariant boot s' := by
  cases act with
  | insmod => exact inv.insmod h sane
  | rmmod => exact inv.rmmod h
  | statement memory => exact inv.statement h
  | migrate cpu =>
    cases h
    have hclosed : patching s.rest = false := sane
    exact
      { inv with
        unprotected := by
          intro h
          rw [hclosed] at h
          cases h
        registers := fun c _ => inv.closed hclosed c }
  | poke address w =>
    cases h
    have hother : ∀ e, address ≠ image.slot e := sane
    exact
      { inv with
        entries := by
          intro e
          exact (Function.update_of_ne (hother e).symm _ _).trans (inv.entries e) }
  | kernel act =>
    obtain ⟨system,-,rfl⟩ := Option.map_eq_some_iff.mp h
    exact { inv with }

end PatchInvariant

theorem patchInvariant_of_run {hash32 : Pid → ℕ} {sig : Actor → Bool} {tr : List (Loader M × Action M)}
    (h : Run (step image hash32) (initial boot sig) tr s) (sane : ∀ x ∈ tr, Sane image x.1 x.2) :
    PatchInvariant boot s :=
  Run.invariant_of_guard patchInvariant_initial (fun _ _ _ inv hsane ht => inv.stepped ht hsane) h sane

/-- Memory with all that others have written to it. -/
def poked (memory : Memory M) (tr : List (Loader M × Action M)) : Memory M :=
  tr.foldl (fun memory x =>
    match x.2 with
    | .poke address w => Function.update memory address w
    | _ => memory) memory

/-- What the module leaves in memory and in the registers. -/
structure Patched (boot : Boot image) (tr : List (Loader M × Action M)) (s : Loader M) : Prop where
  fine : s.oops = false
  live : s.state = .live → ∀ e, s.memory (image.slot e) = some (image.handler e)
  restored : s.state = .unloaded ∨ s.state = .gone → s.memory = poked boot.memory tr
  entries : ∀ e, s.memory (image.slot e) = some (image.handler e) ∨
    s.memory (image.slot e) = some (boot.word e)
  elsewhere : ∀ address, (∀ e, address ≠ image.slot e) →
    s.memory address = poked boot.memory tr address
  registers : ∀ c, (patching s.rest = true → c ≠ s.cpu) →
    s.cr0 c = boot.cr0 c ∨ s.cr0 c = boot.cr0 c ||| M.writeProtect

section Runs
variable {hash32 : Pid → ℕ} {sig : Actor → Bool} {tr : List (Loader M × Action M)} {act : Action M}

lemma poked_snoc (memory : Memory M) (tr : List (Loader M × Action M)) (s : Loader M)
    (act : Action M) : poked memory (tr ++ [(s,act)]) =
      match act with
      | .poke address w => Function.update (poked memory tr) address w
      | _ => poked memory tr := by
  simp only [poked,List.foldl_append,List.foldl_cons,List.foldl_nil]

/-- Nobody but the statements that replace and revert the entries writes for the module. -/
lemma PatchInvariant.elsewhere_stepped (inv : PatchInvariant boot s)
    (h : step image hash32 s act = some s') {address : M.Word} (elsewhere : ∀ e, address ≠ image.slot e)
    (hold : s.memory address = poked boot.memory tr address) :
    s'.memory address = poked boot.memory (tr ++ [(s,act)]) address := by
  rw [poked_snoc]
  cases act with
  | insmod =>
    simp only [step] at h
    split_ifs at h with hstate
    split at h
    · split_ifs at h <;> cases h <;> exact hold
    · cases h
      exact hold
    · cases h
      exact hold
    · cases h
  | rmmod =>
    simp only [step] at h
    split_ifs at h <;> cases h <;> exact hold
  | statement memory =>
    simp only [step] at h
    cases hrest : s.rest with
    | nil =>
      rw [hrest] at h
      cases h
    | cons x xs =>
      rw [hrest] at h
      dsimp only at h
      rw [inv.not_faults hrest,if_neg Bool.false_ne_true] at h
      cases h
      refine (memory_runStatement fun e _ => ?_).trans hold
      rw [inv.entry_eq hrest]
      exact elsewhere e
  | migrate cpu =>
    cases h
    exact hold
  | poke address' w =>
    cases h
    dsimp only
    by_cases ha : address = address'
    · subst ha
      rw [Function.update_self,Function.update_self]
    · rw [Function.update_of_ne ha,Function.update_of_ne ha]
      exact hold
  | kernel act =>
    obtain ⟨system,-,rfl⟩ := Option.map_eq_some_iff.mp h
    exact hold

lemma elsewhere_of_run (h : Run (step image hash32) (initial boot sig) tr s)
    (sane : ∀ x ∈ tr, Sane image x.1 x.2) {address : M.Word} (elsewhere : ∀ e, address ≠ image.slot e) :
    s.memory address = poked boot.memory tr address := by
  induction h with
  | refl => rfl
  | @snoc tr s act s' prior taken ih =>
    have hsane : ∀ x ∈ tr, Sane image x.1 x.2 := fun x hx => sane x (List.mem_append_left _ hx)
    exact (patchInvariant_of_run prior hsane).elsewhere_stepped taken elsewhere (ih hsane)

lemma poked_slot (sane : ∀ x ∈ tr, Sane image x.1 x.2) (e : Entry) :
    poked boot.memory tr (image.slot e) = some (boot.word e) := by
  induction tr using List.reverseRecOn with
  | nil => exact boot.mapped e
  | append_singleton tr x ih =>
    obtain ⟨s,act⟩ := x
    have hold := ih fun x hx => sane x (List.mem_append_left _ hx)
    rw [poked_snoc]
    cases act with
    | poke address w =>
      have hother : ∀ e, address ≠ image.slot e := sane (s,.poke address w) (by simp)
      exact (Function.update_of_ne (hother e).symm _ _).trans hold
    | _ => exact hold

/-- However a load and an unload are mixed with the calls and with what others write, no statement
faults; the entries are the module's while it is loaded, and once it is unloaded all the memory is as
if it had never been. -/
theorem memory_restored (h : Run (step image hash32) (initial boot sig) tr s)
    (sane : ∀ x ∈ tr, Sane image x.1 x.2) : Patched boot tr s := by
  have inv := patchInvariant_of_run h sane
  constructor
  case fine => exact inv.fine
  case live =>
    intro hstate e
    rw [inv.entries,inv.rest_eq_nil (by rw [hstate]; rfl),hstate]
    rfl
  case restored =>
    intro hstate
    funext address
    by_cases helsewhere : ∀ e, address ≠ image.slot e
    · exact elsewhere_of_run h sane helsewhere
    · obtain ⟨e,he⟩ := not_forall.mp helsewhere
      obtain rfl := not_not.mp he
      rw [poked_slot sane,inv.entries]
      rcases hstate with hstate | hstate
      · rw [hstate]
        rfl
      · rw [inv.rest_eq_nil (by rw [hstate]; rfl),hstate]
        rfl
  case entries =>
    intro e
    rw [inv.entries]
    split_ifs
    · exact .inl rfl
    · exact .inr rfl
  case elsewhere =>
    intro address helsewhere
    exact elsewhere_of_run h sane helsewhere
  case registers => exact inv.registers

/-- A machine that has all its pages read-only, and its table in the second word of the kernel. -/
def i386Image : Image .i386 where
  pageOffset := 0xc0000000
  sysClose := 0xc1120000
  nrClose := 6
  aligned := by decide
  table := 0xc0000004
  nr
    | .cs3013Syscall1 => 349
    | .cs3013Syscall2 => 350
    | .cs3013Syscall3 => 351
    | .exit => 1
    | .exitGroup => 252
  handler
    | .cs3013Syscall1 => 0xf8000000
    | .cs3013Syscall2 => 0xf8000100
    | .cs3013Syscall3 => 0xf8000200
    | .exit => 0xf8000300
    | .exitGroup => 0xf8000400
  readOnly _ := true
  table_ne := by decide
  nr_injective := by decide
  nr_lt e := by cases e <;> decide

def i386Boot : Boot i386Image where
  memory address := some (if address = 0xc000001c then 0xc1120000 else 0)
  cr0 _ := 0x80050033
  word _ := 0
  mapped e := by cases e <;> decide
  foreign e := by cases e <;> decide

/-- The module is loaded, process 1001 sends itself a message, and the module is unloaded on another
processor. -/
def loadSendUnload : List (Action .i386) :=
  [.kernel (.newProcess 1001 1000),.insmod] ++ List.replicate 15 (.statement true) ++
    [.kernel (.enter 1001 (.sendMessage 1001 0 false))] ++
    List.replicate 6 (.kernel (.run 1001 .clear)) ++
    [.rmmod,.poke 0xc0000000 (some 1),.migrate 1] ++ List.replicate 10 (.statement true)

theorem memory_restored_after_unload : ∃ (tr : List (Loader .i386 × Action .i386)) (s : Loader .i386),
    Run (step i386Image goldenHash32) (initial i386Boot fun _ => false) tr s ∧ s.state = .gone ∧
      s.system.messages.created = 1 ∧ Patched i386Boot tr s := by
  obtain ⟨tr,s,hrun,htest⟩ := exists_run_of_execute (step i386Image goldenHash32)
    (initial i386Boot fun _ => false) loadSendUnload
    (fun tr s => tr.all (fun x => decide (Sane i386Image x.1 x.2)) &&
      decide (s.state = .gone ∧ s.system.messages.created = 1)) (by decide +kernel)
  rw [Bool.and_eq_true,List.all_eq_true] at htest
  obtain ⟨hsane,hend⟩ := htest
  obtain ⟨hgone,hcreated⟩ := of_decide_eq_true hend
  exact ⟨tr,s,hrun,hgone,hcreated,memory_restored hrun fun x hx => of_decide_eq_true (hsane x hx)⟩


end Runs
end Loader
end ProcessMessagePassing
