import ProcessMessagePassing.Concurrency.Refinement
import ProcessMessagePassing.Kernel.Patching

/-! The load in memory as a load of the machine of entries and caches. -/
namespace ProcessMessagePassing.Loader
open Concurrency

variable {M : Machine} {image : Image M} {boot : Boot image} {s s' : Loader M} {hash32 : Pid → ℕ}
  {sig : Actor → Bool} {tr : List (Loader M × Action M)} {act : Action M}

/-- The statements that are not about `cr0`. -/
def statements (rest : List LoadStatement) : List Statement := rest.filterMap LoadStatement.statement

/-- The load as far as the entries and the caches go. -/
def interceptor (image : Image M) (s : Loader M) : Interceptor where
  system := s.system
  state := if statements s.rest = [] then s.state.finish else s.state
  rest := statements s.rest
  sysCallTable := image.view s.memory
  ref := fun _ => .original
  cache := s.cache

/-- The load is not cancelled. -/
def found (image : Image M) (s : Loader M) : Bool :=
  match findSysCallTable image.toSymbols s.memory M.words with
  | some (.table sct) => decide (sct ≠ 0)
  | _ => false

/-- What the step is for the entries and the caches. -/
def visible (image : Image M) (s : Loader M) : Action M → Option Interceptor.Action
  | .insmod => some (.insmod (s.found image))
  | .rmmod => some .rmmod
  | .statement memory => (s.rest.head?.bind LoadStatement.statement).map fun _ => .statement memory
  | .kernel act => some (.kernel act)
  | _ => none

lemma interceptor_initial : (initial boot sig).interceptor image = Interceptor.initial sig := by
  have hview : image.view boot.memory = fun _ => .original := by
    funext e
    have hword : boot.memory (image.slot e) = some (boot.word e) := boot.mapped e
    rw [Image.view,hword,if_neg fun h => boot.foreign e (Option.some.inj h)]
  unfold interceptor initial
  rw [hview]
  rfl

/-- A handler that is not that of the module is the one that the kernel came with. -/
lemma view_of_word (boot : Boot image) {memory : Memory M} {e : Entry} {replaced : Bool}
    (word : memory (image.slot e) = some (if replaced then image.handler e else boot.word e)) :
    image.view memory e = if replaced then .replaced else .original := by
  rw [Image.view,word]
  cases replaced with
  | true => exact if_pos rfl
  | false => exact if_neg fun h => boot.foreign e (Option.some.inj h)

lemma PatchInvariant.view_eq (inv : PatchInvariant boot s) (e : Entry) :
    image.view s.memory e = if s.state.replaces s.rest e then .replaced else .original :=
  view_of_word boot (inv.entries e)

/-- The statements on `cr0` leave the entries, the caches and the calls alone. -/
lemma runStatement_silent {x : LoadStatement} (silent : x.statement = none) (memory : Bool) :
    (s.runStatement image memory x).memory = s.memory ∧
      (s.runStatement image memory x).cache = s.cache ∧
      (s.runStatement image memory x).system = s.system := by
  cases x with
  | plain y => cases silent
  | _ => exact ⟨rfl,rfl,rfl⟩

section Visible
variable (inv : PatchInvariant boot s)
include inv

lemma PatchInvariant.sysCallTable_interceptor {y : Statement} {xs : List LoadStatement}
    (rest : s.rest = .plain y :: xs) (memory : Bool) :
    image.view (s.runStatement image memory (.plain y)).memory =
      ((s.interceptor image).runStatement memory y).sysCallTable := by
  funext e
  have hnew : image.view (s.runStatement image memory (.plain y)).memory e =
      if s.state.replaces xs e then .replaced else .original :=
    view_of_word boot (inv.entries_statement rest e)
  have hold := inv.view_eq e
  obtain ⟨hfollow,hnot⟩ := inv.follow rest
  rw [hnew]
  by_cases hreplace : y = .replace e
  · subst y
    rw [hfollow.1,ModuleState.replaces,decide_eq_true hnot,if_pos rfl]
    change Handler.replaced = Function.update (image.view s.memory) e .replaced e
    rw [Function.update_self]
  by_cases hrevert : y = .revert e
  · subst y
    rw [hfollow.1,ModuleState.replaces,decide_eq_false hnot,if_neg Bool.false_ne_true]
    change Handler.original = Function.update (image.view s.memory) e .original e
    rw [Function.update_self]
  rw [rest,replaces_cons (fun h => hreplace (LoadStatement.plain.inj h))
    fun h => hrevert (LoadStatement.plain.inj h)] at hold
  rw [← hold]
  cases y with
  | replace e' =>
    have hne : e ≠ e' := fun he => hreplace (congrArg _ he.symm)
    exact (Function.update_of_ne hne _ _).symm
  | revert e' =>
    have hne : e ≠ e' := fun he => hrevert (congrArg _ he.symm)
    exact (Function.update_of_ne hne _ _).symm
  | _ => rfl

/-- What is stored for an entry is the handler that the kernel came with. -/
lemma PatchInvariant.ref_interceptor {y : Statement} {xs : List LoadStatement}
    (rest : s.rest = .plain y :: xs) (memory : Bool) :
    ((s.interceptor image).runStatement memory y).ref = fun _ => .original := by
  cases y with
  | store e =>
    have hfollow := (inv.follow rest).1
    have hkernel : image.view s.memory e = .original := by
      rw [inv.view_eq,rest,hfollow.1,ModuleState.replaces,decide_eq_false,if_neg Bool.false_ne_true]
      exact not_not.mpr (List.mem_cons_of_mem _ (hfollow.2 e))
    funext e'
    change Function.update (fun _ => Handler.original) e (image.view s.memory e) e' = .original
    rw [hkernel,Function.update_apply,ite_self]
  | _ => rfl

lemma PatchInvariant.visible_statement {memory : Bool} {b : Interceptor.Action}
    (h : step image hash32 s (.statement memory) = some s')
    (visible : s.visible image (.statement memory) = some b) :
    Interceptor.step hash32 (s.interceptor image) b = some (s'.interceptor image) := by
  obtain ⟨y,hy,rfl⟩ := Option.map_eq_some_iff.mp visible
  obtain ⟨x,hx,hplain⟩ := Option.bind_eq_some_iff.mp hy
  obtain ⟨xs,hrest⟩ : ∃ xs, s.rest = x :: xs := by
    cases hrest : s.rest with
    | nil =>
      rw [hrest] at hx
      cases hx
    | cons z zs =>
      rw [hrest] at hx
      cases hx
      exact ⟨zs,rfl⟩
  obtain rfl : x = .plain y := by
    cases x with
    | plain z =>
      cases hplain
      rfl
    | _ => cases hplain
  have htable := inv.sysCallTable_interceptor hrest memory
  have href := inv.ref_interceptor hrest memory
  simp only [step,hrest,inv.not_faults hrest,Bool.false_eq_true,if_false,Option.some.injEq] at h
  subst s'
  have hstatements : statements s.rest = y :: statements xs := by rw [hrest]; rfl
  have hrun : (s.interceptor image).rest = y :: statements xs := hstatements
  have hstate : (s.interceptor image).state = s.state := if_neg (by rw [hstatements]; simp)
  simp only [Interceptor.step,hrun,hstate,Option.some.injEq]
  have hcache : (s.runStatement image memory (.plain y)).cache =
      ((s.interceptor image).runStatement memory y).cache := by cases y <;> rfl
  have hsystem : (s.runStatement image memory (.plain y)).system =
      ((s.interceptor image).runStatement memory y).system := by cases y <;> rfl
  unfold interceptor
  rw [Interceptor.mk.injEq]
  refine ⟨hsystem.symm,?_,rfl,htable.symm,href,hcache.symm⟩
  by_cases hxs : xs = []
  · subst xs
    exact (finish_finish _).symm
  · rw [if_neg hxs]

lemma PatchInvariant.silent_statement {memory : Bool}
    (h : step image hash32 s (.statement memory) = some s')
    (silent : s.visible image (.statement memory) = none) :
    s'.interceptor image = s.interceptor image := by
  cases hrest : s.rest with
  | nil =>
    simp only [step,hrest] at h
    cases h
  | cons x xs =>
    have hx : x.statement = none := by
      simpa [visible,hrest] using silent
    simp only [step,hrest,inv.not_faults hrest,Bool.false_eq_true,if_false,Option.some.injEq] at h
    subst s'
    have hstatements : statements s.rest = statements xs := by
      rw [hrest,statements,List.filterMap_cons_none hx]
      rfl
    obtain ⟨hmemory,hcache,hsystem⟩ := @runStatement_silent _ image s _ hx memory
    unfold interceptor
    rw [Interceptor.mk.injEq,hmemory,hstatements]
    refine ⟨hsystem,?_,rfl,rfl,rfl,hcache⟩
    dsimp only
    by_cases hxs : xs = []
    · subst xs
      exact finish_finish _
    · rw [if_neg hxs]

end Visible

lemma visible_step (inv : PatchInvariant boot s) (sane : Sane image s act)
    (h : step image hash32 s act = some s') {b : Interceptor.Action}
    (visible : s.visible image act = some b) :
    Interceptor.step hash32 (s.interceptor image) b = some (s'.interceptor image) := by
  cases act with
  | insmod =>
    cases visible
    simp only [step] at h
    split_ifs at h with hstate
    have hrest : s.rest = [] := inv.rest_eq_nil (by rw [hstate]; rfl)
    have hunloaded : (s.interceptor image).state = .unloaded := by
      unfold interceptor
      rw [hrest,hstate]
      rfl
    simp only [Interceptor.step,hunloaded,if_true]
    split at h
    · next sct hfound =>
      split_ifs at h with hzero
      · have hnot : s.found image = false := by
          rw [found,hfound]
          exact decide_eq_false (not_not.mpr hzero)
        cases h
        rw [hnot]
        rfl
      · have hyes : s.found image = true := by
          rw [found,hfound]
          exact decide_eq_true hzero
        cases h
        rw [hyes]
        rfl
    · next hfound =>
      have hnot : s.found image = false := by rw [found,hfound]
      cases h
      rw [hnot]
      rfl
    · next hfound =>
      simp only [Sane,hfound] at sane
    · cases h
  | rmmod =>
    cases visible
    simp only [step] at h
    split_ifs at h with hstate hzero
    · have hlive : s.state ≠ .unloaded := by
        rw [hstate]
        exact ModuleState.noConfusion
      exact absurd hzero (inv.table_ne_zero hlive)
    · have hrest : s.rest = [] := inv.rest_eq_nil (by rw [hstate]; rfl)
      have hlive : (s.interceptor image).state = .live := by
        unfold interceptor
        rw [hrest,hstate]
        rfl
      cases h
      simp only [Interceptor.step,hlive,if_true]
      rfl
  | statement memory => exact inv.visible_statement h visible
  | migrate cpu => cases visible
  | poke address w => cases visible
  | kernel act =>
    cases visible
    obtain ⟨system,hsystem,rfl⟩ := Option.map_eq_some_iff.mp h
    exact Option.map_eq_some_iff.mpr ⟨system,hsystem,rfl⟩

lemma silent_step (inv : PatchInvariant boot s) (sane : Sane image s act)
    (h : step image hash32 s act = some s') (silent : s.visible image act = none) :
    s'.interceptor image = s.interceptor image := by
  cases act with
  | insmod => cases silent
  | rmmod => cases silent
  | statement memory => exact inv.silent_statement h silent
  | migrate cpu =>
    cases h
    rfl
  | poke address w =>
    cases h
    have hother : ∀ e, address ≠ image.slot e := sane
    have hview : image.view (Function.update s.memory address w) = image.view s.memory := by
      funext e
      rw [Image.view,Function.update_of_ne (hother e).symm]
      rfl
    unfold interceptor
    rw [hview]
  | kernel act => cases silent

/-- What happens to the entries, the caches and the calls while the module is loaded and unloaded in
memory is a load and an unload of the machine that has nothing but these. -/
theorem loader_refines_interceptor (h : Run (step image hash32) (initial boot sig) tr s)
    (sane : ∀ x ∈ tr, Sane image x.1 x.2) :
    Run (Interceptor.step hash32) (Interceptor.initial sig)
      (tr.filterMap fun x => (x.1.visible image x.2).map (Prod.mk (x.1.interceptor image)))
      (s.interceptor image) := by
  have hsimulates := h.simulates (interceptor image) (visible image) patchInvariant_initial
    (fun _ _ _ inv hsane ht => inv.stepped ht hsane)
    (fun _ _ _ _ inv hsane ht hvisible => visible_step inv hsane ht hvisible)
    (fun _ _ _ inv hsane ht hsilent => silent_step inv hsane ht hsilent) sane
  rwa [interceptor_initial] at hsimulates

theorem loader_refines_interceptor_to_unload : ∃ (tr : List (Interceptor × Interceptor.Action))
    (s : Loader .i386), (s.interceptor i386Image).state = .gone ∧ s.system.messages.created = 1 ∧
      Run (Interceptor.step goldenHash32) (Interceptor.initial fun _ => false) tr
        (s.interceptor i386Image) := by
  obtain ⟨tr,s,hrun,htest⟩ := exists_run_of_execute (step i386Image goldenHash32)
    (initial i386Boot fun _ => false) loadSendUnload
    (fun tr s => tr.all (fun x => decide (Sane i386Image x.1 x.2)) &&
      decide ((s.interceptor i386Image).state = .gone ∧ s.system.messages.created = 1))
    (by decide +kernel)
  rw [Bool.and_eq_true,List.all_eq_true] at htest
  obtain ⟨hsane,hend⟩ := htest
  obtain ⟨hgone,hcreated⟩ := of_decide_eq_true hend
  exact ⟨_,s,hgone,hcreated,
    loader_refines_interceptor hrun fun x hx => of_decide_eq_true (hsane x hx)⟩

end ProcessMessagePassing.Loader
