import ProcessMessagePassing.Concurrency.Holders
import ProcessMessagePassing.Kernel.Projection

/-! The threads of the processes: which group a task is in and how far it has got with its exit.
The module never changes any of this; what happens to the processes is said here once. -/
namespace ProcessMessagePassing

/-- The task has not decremented `signal->live` of its group. -/
def Pc.live : Pc → Bool
  | .absent => false
  | .die => false
  | .zombie => false
  | _ => true

/-- The task has set `PF_EXITING`. -/
def Pc.exiting : Pc → Bool
  | .decrementLive => true
  | .die => true
  | .zombie => true
  | _ => false

lemma live_begin (m : ℕ) (c : Syscall) : (c.begin m).live = true := by cases c <;> rfl

lemma live_resume (m : ℕ) (r : Ret MessagePtr) (k : Cont) : (k.resume m r).live = true := by
  cases k with
  | claimed fresh c =>
    cases fresh with
    | true => exact live_begin m c
    | false => rfl
  | removed ptrs => cases r <;> rfl
  | added | refused | putBack | stopped | unclaimed | delivered | hook => rfl

namespace System
open Concurrency HashTable
variable {hash32 : Pid → ℕ} {sig : Actor → Bool} {s s' : System} {act : Action}
  {tr : List (System × Action)} {q : Pid}

/-- What a step does to the processes, and where the task that it moves stands. -/
inductive ProcessStep (s : System) (act : Action) (s' : System) : Prop
  | same (processes : s'.processes = s.processes)
      (live : ∀ p, act.moves = some p → (s.pc p).live = true ∧ (s'.pc p).live = true ∧
        (s.pc p).exiting = false ∧ (s'.pc p).exiting = false)
  | started {p uid} (action : act = .newProcess p uid) (absent : s.pc p = .absent)
      (free : s.processes.task p = none) (processes : s'.processes = s.processes.newProcess p uid)
      (pc : s'.pc p = .user none)
  | cloned {parent p last task} (action : act = .clone parent p)
      (caller : s.pc parent = .user last) (alive : s.processes.task parent = some task)
      (absent : s.pc p = .absent) (free : s.processes.task p = none)
      (processes : s'.processes = s.processes.clone task p) (pc : s'.pc p = .user none)
  | signalled {p} (action : act = .fatalSignal p)
      (processes : s'.processes = s.processes.setGroupExit (s.processes.tgid p))
  | exits {p group} (moves : act.moves = some p) (pc : s.pc p = .realExit group)
      (processes : s'.processes = (if group then s.processes.setGroupExit (s.processes.tgid p)
        else s.processes).setExiting p) (next : s'.pc p = .decrementLive)
  | decremented {p} (moves : act.moves = some p) (pc : s.pc p = .decrementLive)
      (processes : s'.processes = s.processes.decrementLive p) (next : s'.pc p = .die)
  | died {p} (moves : act.moves = some p) (pc : s.pc p = .die)
      (processes : s'.processes = s.processes.die p) (next : s'.pc p = .zombie)
  | released {p} (moves : act.moves = some p) (pc : s.pc p = .zombie)
      (may : s.processes.mayRelease p = true)
      (processes : s'.processes = s.processes.release p) (next : s'.pc p = .absent)

lemma exiting_of_live {c : Pc} (h : c.live = true) (hc : c ≠ .decrementLive) :
    c.exiting = false := by
  cases c with
  | decrementLive => exact absurd rfl hc
  | absent | die | zombie => cases h
  | _ => rfl

/-- A step that leaves the processes alone and takes a task from one live point to another. -/
lemma processStep_same {p : Pid} (moves : act.moves = some p)
    (processes : s'.processes = s.processes) {c c' : Pc} (pc : s.pc p = c) (pc' : s'.pc p = c')
    (live : c.live = true) (live' : c'.live = true) (hc : c ≠ .decrementLive)
    (hc' : c' ≠ .decrementLive) : ProcessStep s act s' := by
  refine .same processes ?_
  intro q hq
  rw [moves] at hq
  cases hq
  subst c c'
  exact ⟨live,live',exiting_of_live live hc,exiting_of_live live' hc'⟩

theorem Stepped.processStep (h : Stepped hash32 s act s') : ProcessStep s act s' := by
  cases h with
  | newProcess absent free => exact .started rfl absent free rfl (setPc_self _ _ _)
  | clone caller alive absent free =>
    exact .cloned rfl caller alive absent free rfl (setPc_self _ _ _)
  | fatalSignal => exact .signalled rfl rfl
  | realExit pc => exact .exits rfl pc rfl (setPc_self _ _ _)
  | decrementLive pc => exact .decremented rfl pc rfl (setPc_self _ _ _)
  | die pc => exact .died rfl pc rfl (setPc_self _ _ _)
  | reap pc may => exact .released rfl pc may rfl (setPc_self _ _ _)
  | signal | handle | ownerRead | stillValid | exited | unlinked | destroyStays | flushed
  | deleted => exact .same rfl nofun
  | enter pc | exit pc | exitGroup pc | killed pc | valid pc | invalid pc | outOfMemory pc
  | found pc | created pc | stays pc | refused pc | messageCreated pc | messageFailed pc
  | countFault pc | copied pc | copyFault pc | destroyed pc | lastThread pc | otherThread pc
  | removalFound pc | removalMissing pc | deletionStarted pc | deletionFailed pc =>
    exact processStep_same rfl rfl pc (setPc_self _ _ _) rfl rfl nofun nofun
  | countCopied pc =>
    refine processStep_same rfl rfl pc (setPc_self _ _ _) rfl ?_ nofun ?_
    · split <;> rfl
    · split <;> nofun
  | granted pc =>
    exact processStep_same rfl rfl pc (setPc_self _ _ _) rfl (live_begin _ _) nofun
      (begin_ne _ rfl)
  | returned pc =>
    exact processStep_same rfl rfl pc (setPc_self _ _ _) rfl (live_resume _ _ _) nofun
      (resume_ne _ _ rfl)

/-- No other task changes its group. -/
theorem Stepped.group_of_ne (h : Stepped hash32 s act s') {p : Pid} (hp : act.moves ≠ some p) :
    s'.processes.group p = s.processes.group p := by
  cases h.processStep with
  | same processes => rw [processes]
  | started action absent free processes =>
    rw [processes,Processes.group_newProcess,Function.update_of_ne]
    rintro rfl
    exact hp (by rw [action]; rfl)
  | cloned action caller alive absent free processes =>
    rw [processes,Processes.group_clone,Function.update_of_ne]
    rintro rfl
    exact hp (by rw [action]; rfl)
  | signalled action processes => rw [processes]; rfl
  | @exits q group moves pc processes =>
    rw [processes,Processes.group_setExiting]
    cases group <;> rfl
  | decremented moves pc processes => rw [processes]; rfl
  | died moves pc processes => rw [processes,Processes.group_die]
  | released moves pc may processes =>
    rw [processes,Processes.group_release,Function.update_of_ne]
    rintro rfl
    exact hp moves

/-- The group of a task and where the task stands. -/
def thread (s : System) (p : Pid) : Option Pid × Pc := (s.processes.group p,s.pc p)

/-- What holds of the tasks of every reachable state: who is there, what the counters of a group
count, and that the leader of a group is released last. -/
structure ThreadInvariant (s : System) : Prop where
  present : ∀ p, s.pc p = .absent ↔ s.processes.group p = none
  exiting : ∀ p task, s.processes.task p = some task → task.exiting = (s.pc p).exiting
  live : ∀ g, Counts (s.processes.live g) s.thread fun t => t.1 = some g ∧ t.2.live = true
  threads : ∀ g, Counts (s.processes.threads g) s.thread fun t => t.1 = some g
  leader : ∀ p g, s.processes.group p = some g → s.processes.group g = some g
  born : ∀ p g, s.processes.group p = some g → s.processes.births g ≠ 0

theorem threadInvariant_initial : ThreadInvariant (initial sig) where
  present p := ⟨fun _ => rfl,fun _ => rfl⟩
  exiting p task h := by cases h
  live g := Counts.initial nofun
  threads g := Counts.initial nofun
  leader p g h := by cases h
  born p g h := by cases h

/-- What a step does to the threads and to the counters of their groups. -/
inductive ThreadStep (s s' : System) : Prop
  | rests (thread : s'.thread = s.thread) (live : s'.processes.live = s.processes.live)
      (threads : s'.processes.threads = s.processes.threads)
  | moves {p c} (thread : s'.thread = Function.update s.thread p (s.processes.group p,c))
      (same : c.live = (s.pc p).live) (absent : c ≠ .absent) (old : s.pc p ≠ .absent)
      (live : s'.processes.live = s.processes.live)
      (threads : s'.processes.threads = s.processes.threads)
  | joins {p g} (free : s.processes.group p = none) (leader : g = p ∨ s.processes.group g = some g)
      (thread : s'.thread = Function.update s.thread p (some g,.user none))
      (live : s'.processes.live = Function.update s.processes.live g (s.processes.live g + 1))
      (threads : s'.processes.threads =
        Function.update s.processes.threads g (s.processes.threads g + 1))
  | stops {p g} (group : s.processes.group p = some g) (pc : s.pc p = .decrementLive)
      (thread : s'.thread = Function.update s.thread p (some g,.die))
      (live : s'.processes.live = Function.update s.processes.live g (s.processes.live g - 1))
      (threads : s'.processes.threads = s.processes.threads)
  | leaves {p g} (group : s.processes.group p = some g) (pc : s.pc p = .zombie)
      (last : g ≠ p ∨ s.processes.threads p = 1)
      (thread : s'.thread = Function.update s.thread p (none,.absent))
      (live : s'.processes.live = s.processes.live)
      (threads : s'.processes.threads =
        Function.update s.processes.threads g (s.processes.threads g - 1))

lemma ThreadInvariant.exists_group (inv : ThreadInvariant s) {p : Pid} (h : s.pc p ≠ .absent) :
    ∃ g, s.processes.group p = some g := by
  have hne : s.processes.group p ≠ none := fun hn => h ((inv.present p).mpr hn)
  exact Option.ne_none_iff_exists'.mp hne

/-- Nobody is in the group of a task that is not there. -/
lemma ThreadInvariant.no_member (inv : ThreadInvariant s) {p : Pid}
    (free : s.processes.group p = none) (q : Pid) : s.processes.group q ≠ some p := by
  intro hq
  have hp := inv.leader q p hq
  rw [free] at hp
  cases hp

lemma ThreadInvariant.live_eq_zero (inv : ThreadInvariant s) {p : Pid}
    (free : s.processes.group p = none) : s.processes.live p = 0 :=
  (inv.live p).zero_iff.mpr fun q hq => inv.no_member free q hq.1

lemma ThreadInvariant.threads_eq_zero (inv : ThreadInvariant s) {p : Pid}
    (free : s.processes.group p = none) : s.processes.threads p = 0 :=
  Int.natCast_eq_zero.mp ((inv.threads p).zero_iff.mpr fun q hq => inv.no_member free q hq)

/-- A step moves one thread at most. -/
lemma thread_update (h : Stepped hash32 s act s') {p : Pid} {g : Option Pid} {c : Pc}
    (moves : act.moves = some p)
    (group : s'.processes.group = Function.update s.processes.group p g) (pc : s'.pc p = c) :
    s'.thread = Function.update s.thread p (g,c) := by
  funext q
  unfold thread
  rw [group]
  by_cases hq : q = p
  · subst q
    rw [Function.update_self,Function.update_self,pc]
  · have hpc : s'.pc q = s.pc q := by
      apply h.pc_of_ne
      rw [moves]
      exact fun he => hq (Option.some.inj he).symm
    rw [Function.update_of_ne hq,Function.update_of_ne hq,hpc]

lemma thread_eq (h : Stepped hash32 s act s') (moves : act.moves = none)
    (group : s'.processes.group = s.processes.group) : s'.thread = s.thread := by
  funext q
  have hpc : s'.pc q = s.pc q := h.pc_of_ne (by rw [moves]; nofun)
  unfold thread
  rw [hpc,group]

lemma absent_of_live {c : Pc} (h : c.live = true) : c ≠ .absent := by
  rintro rfl
  cases h

/-- A thread moves and stays in its group. -/
lemma threadStep_moves (h : Stepped hash32 s act s') {p : Pid} {c : Pc}
    (moves : act.moves = some p) (group : s'.processes.group = s.processes.group)
    (pc : s'.pc p = c) (same : c.live = (s.pc p).live) (absent : c ≠ .absent)
    (old : s.pc p ≠ .absent) (live : s'.processes.live = s.processes.live)
    (threads : s'.processes.threads = s.processes.threads) : ThreadStep s s' := by
  refine .moves (thread_update h moves ?_ pc) same absent old live threads
  rw [group,Function.update_eq_self]

theorem ThreadInvariant.threadStep (inv : ThreadInvariant s) (h : Stepped hash32 s act s') :
    ThreadStep s s' := by
  cases h.processStep with
  | same processes live =>
    cases hm : act.moves with
    | none => refine .rests (thread_eq h hm ?_) ?_ ?_ <;> rw [processes]
    | some p =>
      obtain ⟨hlive,hlive',-⟩ := live p hm
      refine threadStep_moves h hm ?_ rfl (hlive'.trans hlive.symm) (absent_of_live hlive')
        (absent_of_live hlive) ?_ ?_ <;> rw [processes]
  | @started p uid action absent free processes pc =>
    have hfree : s.processes.group p = none := Processes.group_eq_none.mpr free
    refine .joins hfree (.inl rfl) (thread_update h (by rw [action]; rfl) ?_ pc) ?_ ?_
    · rw [processes]
      exact Processes.group_newProcess _ _ _
    · rw [processes,inv.live_eq_zero hfree]
      rfl
    · rw [processes,inv.threads_eq_zero hfree]
      rfl
  | @cloned parent p last task action caller alive absent free processes pc =>
    have hgroup := Processes.group_of_task alive
    refine .joins (Processes.group_eq_none.mpr free) (.inr (inv.leader parent _ hgroup))
      (thread_update h (by rw [action]; rfl) ?_ pc) ?_ ?_
    · rw [processes]
      exact Processes.group_clone _ _ _
    · rw [processes]
      rfl
    · rw [processes]
      rfl
  | signalled action processes =>
    refine .rests (thread_eq h (by rw [action]; rfl) ?_) ?_ ?_ <;> rw [processes] <;> rfl
  | @exits p group moves pc processes next =>
    refine threadStep_moves h moves ?_ next (by rw [pc]; rfl) nofun (by rw [pc]; nofun) ?_ ?_
    · rw [processes,Processes.group_setExiting]
      cases group <;> rfl
    · rw [processes,Processes.live_setExiting]
      cases group <;> rfl
    · rw [processes,Processes.threads_setExiting]
      cases group <;> rfl
  | @decremented p moves pc processes next =>
    obtain ⟨g,hg⟩ := inv.exists_group (p := p) (by rw [pc]; nofun)
    refine .stops hg pc (thread_update h moves ?_ next) ?_ ?_
    · rw [processes,Processes.group_decrementLive,← hg,Function.update_eq_self]
    · rw [processes,← Processes.tgid_of_group hg]
      rfl
    · rw [processes]
      rfl
  | @died p moves pc processes next =>
    refine threadStep_moves h moves ?_ next (by rw [pc]; rfl) nofun (by rw [pc]; nofun) ?_ ?_
    · rw [processes,Processes.group_die]
    · rw [processes,Processes.live_die]
    · rw [processes,Processes.threads_die]
  | @released p moves pc may processes next =>
    obtain ⟨g,hg⟩ := inv.exists_group (p := p) (by rw [pc]; nofun)
    have htgid := Processes.tgid_of_group hg
    refine .leaves hg pc ?_ (thread_update h moves ?_ next) ?_ ?_
    · unfold Processes.mayRelease at may
      rw [htgid] at may
      simpa using may
    · rw [processes]
      exact Processes.group_release _ _
    · rw [processes]
      rfl
    · rw [processes,← htgid]
      rfl

lemma ThreadInvariant.step_live (inv : ThreadInvariant s) (h : ThreadStep s s') (g : Pid) :
    Counts (s'.processes.live g) s'.thread fun t => t.1 = some g ∧ t.2.live = true := by
  have hold := inv.live g
  cases h with
  | rests thread live =>
    rw [thread,live]
    exact hold
  | @moves p c thread same absent old live =>
    rw [thread,live]
    apply hold.unchanged
    simp [System.thread,same]
  | @joins p g' free leader thread live =>
    rw [thread,live]
    by_cases hg : g = g'
    · subst g'
      rw [Function.update_self]
      apply hold.enter
      · simp [System.thread,free]
      · simp [Pc.live]
    · rw [Function.update_of_ne hg]
      apply hold.unchanged
      simp [System.thread,free,Ne.symm hg]
  | @stops p g' group pc thread live =>
    rw [thread,live]
    by_cases hg : g = g'
    · subst g'
      rw [Function.update_self]
      apply hold.leave
      · simp [System.thread,group,pc,Pc.live]
      · simp [Pc.live]
    · rw [Function.update_of_ne hg]
      apply hold.unchanged
      simp [System.thread,group,Ne.symm hg]
  | @leaves p g' group pc last thread live =>
    rw [thread,live]
    apply hold.unchanged
    simp [System.thread,pc,Pc.live]

lemma ThreadInvariant.step_threads (inv : ThreadInvariant s) (h : ThreadStep s s') (g : Pid) :
    Counts (s'.processes.threads g) s'.thread fun t => t.1 = some g := by
  have hold := inv.threads g
  cases h with
  | rests thread live threads =>
    rw [thread,threads]
    exact hold
  | @moves p c thread same absent old live threads =>
    rw [thread,threads]
    apply hold.unchanged
    simp [System.thread]
  | @joins p g' free leader thread live threads =>
    rw [thread,threads]
    by_cases hg : g = g'
    · subst g'
      rw [Function.update_self]
      apply hold.enter
      · simp [System.thread,free]
      · rfl
    · rw [Function.update_of_ne hg]
      apply hold.unchanged
      simp [System.thread,free,Ne.symm hg]
  | @stops p g' group pc thread live threads =>
    rw [thread,threads]
    apply hold.unchanged
    simp [System.thread,group]
  | @leaves p g' group pc last thread live threads =>
    rw [thread,threads]
    by_cases hg : g = g'
    · subst g'
      rw [Function.update_self]
      -- the task itself is counted, so the counter is not zero
      have hpos : s.processes.threads g ≠ 0 := fun h0 =>
        hold.zero_iff.mp (by rw [h0]; rfl) p group
      have hsub : ((s.processes.threads g - 1 : ℕ) : ℤ) = s.processes.threads g - 1 := by omega
      rw [hsub]
      apply hold.leave group
      simp
    · rw [Function.update_of_ne hg]
      apply hold.unchanged
      simp [System.thread,group,Ne.symm hg]

lemma group_eq_thread (s : System) (p : Pid) : s.processes.group p = (s.thread p).1 := rfl

lemma pc_eq_thread (s : System) (p : Pid) : s.pc p = (s.thread p).2 := rfl

lemma group_of_update {p : Pid} {c : Pc}
    (thread : s'.thread = Function.update s.thread p (s.processes.group p,c)) :
    s'.processes.group = s.processes.group := by
  funext q
  rw [group_eq_thread,thread]
  by_cases hq : q = p
  · subst q
    rw [Function.update_self]
  · rw [Function.update_of_ne hq]
    rfl

/-- The last task of a group is its only one. -/
lemma ThreadInvariant.eq_of_threads (inv : ThreadInvariant s) {p q g : Pid}
    (one : s.processes.threads g = 1) (hp : s.processes.group p = some g)
    (hq : s.processes.group q = some g) : q = p := by
  have hone : (s.processes.threads g : ℤ) = 1 := by exact_mod_cast one
  exact (inv.threads g).eq_of_one hone hq hp

/-- The last live task of a group is its only one that lives. -/
lemma ThreadInvariant.eq_of_live (inv : ThreadInvariant s) {p q g : Pid}
    (one : s.processes.live g = 1) (hp : s.processes.group p = some g)
    (hq : s.processes.group q = some g) (live : (s.pc p).live = true)
    (live' : (s.pc q).live = true) : p = q :=
  (inv.live g).eq_of_one one ⟨hp,live⟩ ⟨hq,live'⟩

lemma ThreadInvariant.step_present (inv : ThreadInvariant s) (h : ThreadStep s s') (q : Pid) :
    s'.pc q = .absent ↔ s'.processes.group q = none := by
  have hold := inv.present q
  rw [pc_eq_thread,group_eq_thread]
  cases h with
  | rests thread =>
    rw [thread]
    exact hold
  | @moves p c thread same absent old =>
    rw [thread]
    by_cases hq : q = p
    · subst q
      rw [Function.update_self]
      exact ⟨fun hc => absurd hc absent,fun hg => absurd (hold.mpr hg) old⟩
    · rw [Function.update_of_ne hq]
      exact hold
  | @joins p g free leader thread | @stops p g group pc thread | @leaves p g group pc last thread =>
    rw [thread]
    by_cases hq : q = p
    · subst q
      simp
    · rw [Function.update_of_ne hq]
      exact hold

lemma ThreadInvariant.step_leader (inv : ThreadInvariant s) (h : ThreadStep s s') (q g : Pid)
    (hq : s'.processes.group q = some g) : s'.processes.group g = some g := by
  rw [group_eq_thread] at hq ⊢
  cases h with
  | rests thread =>
    rw [thread] at hq ⊢
    exact inv.leader q g hq
  | moves thread =>
    rw [← group_eq_thread,group_of_update thread] at hq ⊢
    exact inv.leader q g hq
  | @joins p g' free leader thread =>
    have hold : ∀ r, s.processes.group r = some r → (s'.thread r).1 = some r := by
      intro r hr
      rw [thread,Function.update_of_ne]
      · exact hr
      · rintro rfl
        rw [free] at hr
        cases hr
    rw [thread] at hq
    by_cases hqp : q = p
    · subst q
      rw [Function.update_self] at hq
      cases hq
      rcases leader with rfl | hleader
      · rw [thread,Function.update_self]
      · exact hold _ hleader
    · rw [Function.update_of_ne hqp] at hq
      exact hold g (inv.leader q g hq)
  | stops group pc thread =>
    rw [← group] at thread
    rw [← group_eq_thread,group_of_update thread] at hq ⊢
    exact inv.leader q g hq
  | @leaves p g' group pc last thread =>
    rw [thread] at hq
    by_cases hqp : q = p
    · subst q
      rw [Function.update_self] at hq
      cases hq
    · rw [Function.update_of_ne hqp] at hq
      have hleader := inv.leader q g hq
      rw [thread,Function.update_of_ne]
      · exact hleader
      · -- the leader is released only when it is alone
        rintro rfl
        rw [group] at hleader
        cases hleader
        rcases last with hne | hone
        · exact hne rfl
        · exact hqp (inv.eq_of_threads hone group hq)

/-- A process keeps its number of births, or a new one is born in its place. -/
lemma births_stepped (h : Stepped hash32 s act s') (g : Pid) :
    s'.processes.births g = s.processes.births g ∨
      s'.processes.group g = some g ∧ s'.pc g = .user none ∧ (∃ uid, act = .newProcess g uid) ∧
        s.processes.group g = none ∧ s'.processes.births g = s.processes.births g + 1 := by
  cases h.processStep with
  | @started p uid action absent free processes pc =>
    by_cases hg : g = p
    · subst g
      right
      refine ⟨?_,pc,⟨uid,action⟩,Processes.group_eq_none.mpr free,?_⟩
      · rw [processes,Processes.group_newProcess,Function.update_self]
      · rw [processes]
        exact Function.update_self _ _ _
    · left
      rw [processes]
      exact Function.update_of_ne hg _ _
  | @exits p group moves pc processes =>
    rw [processes,Processes.births_setExiting]
    cases group <;> exact .inl rfl
  | died moves pc processes =>
    rw [processes,Processes.births_die]
    exact .inl rfl
  | same processes | cloned action caller alive absent free processes | signalled action processes
  | decremented moves pc processes | released moves pc may processes =>
    rw [processes]
    exact .inl rfl

/-- No process is forgotten. -/
lemma births_le (h : Stepped hash32 s act s') (g : Pid) :
    s.processes.births g ≤ s'.processes.births g := by
  rcases births_stepped h g with he | ⟨-,-,-,-,he⟩ <;> omega

lemma ThreadInvariant.step_born (inv : ThreadInvariant s) (h : Stepped hash32 s act s') (q g : Pid)
    (hq : s'.processes.group q = some g) : s'.processes.births g ≠ 0 := by
  have hmono := births_le h g
  have hborn : s.processes.births g ≠ 0 → s'.processes.births g ≠ 0 := by omega
  cases h.processStep with
  | @started p uid action absent free processes =>
    rw [processes,Processes.group_newProcess] at hq
    by_cases hqp : q = p
    · subst q
      rw [Function.update_self] at hq
      cases hq
      rw [processes]
      change Function.update s.processes.births g _ g ≠ 0
      rw [Function.update_self]
      exact Nat.succ_ne_zero _
    · rw [Function.update_of_ne hqp] at hq
      exact hborn (inv.born q g hq)
  | @cloned parent p last task action caller alive absent free processes =>
    rw [processes,Processes.group_clone] at hq
    by_cases hqp : q = p
    · subst q
      rw [Function.update_self] at hq
      cases hq
      exact hborn (inv.born parent _ (Processes.group_of_task alive))
    · rw [Function.update_of_ne hqp] at hq
      exact hborn (inv.born q g hq)
  | @released p moves pc may processes =>
    rw [processes,Processes.group_release] at hq
    by_cases hqp : q = p
    · subst q
      rw [Function.update_self] at hq
      cases hq
    · rw [Function.update_of_ne hqp] at hq
      exact hborn (inv.born q g hq)
  | same processes | signalled action processes | decremented moves pc processes =>
    rw [processes] at hq
    exact hborn (inv.born q g hq)
  | @exits p group moves pc processes =>
    rw [processes,Processes.group_setExiting] at hq
    exact hborn (inv.born q g (by cases group <;> exact hq))
  | died moves pc processes =>
    rw [processes,Processes.group_die] at hq
    exact hborn (inv.born q g hq)

/-- The flag of a task goes with where the task stands. -/
lemma ThreadInvariant.step_exiting (inv : ThreadInvariant s) (h : Stepped hash32 s act s')
    (q : Pid) (task : Task) (hq : s'.processes.task q = some task) :
    task.exiting = (s'.pc q).exiting := by
  -- a task that does not move and keeps its entry
  have hrest : act.moves ≠ some q → s.processes.task q = some task →
      task.exiting = (s'.pc q).exiting := by
    intro hmoves ht
    rw [h.pc_of_ne hmoves]
    exact inv.exiting q task ht
  cases h.processStep with
  | same processes live =>
    rw [processes] at hq
    by_cases hmoves : act.moves = some q
    · obtain ⟨-,-,hold,hnew⟩ := live q hmoves
      rw [hnew,← hold]
      exact inv.exiting q task hq
    · exact hrest hmoves hq
  | @started p uid action absent free processes pc
  | @cloned parent p last _ action caller alive absent free processes pc =>
    rw [processes] at hq
    change Function.update s.processes.task p _ q = some task at hq
    by_cases hqp : q = p
    · subst q
      rw [Function.update_self] at hq
      cases hq
      rw [pc]
      rfl
    · rw [Function.update_of_ne hqp] at hq
      refine hrest ?_ hq
      rw [action]
      exact fun he => hqp (Option.some.inj he).symm
  | signalled action processes =>
    rw [processes] at hq
    exact hrest (by rw [action]; nofun) hq
  | @exits p group moves pc processes next =>
    by_cases hqp : q = p
    · subst q
      rw [next]
      rw [processes] at hq
      exact Processes.exiting_of_setExiting hq
    · rw [processes,Processes.task_setExiting_of_ne _ hqp] at hq
      refine hrest ?_ (by cases group <;> exact hq)
      rw [moves]
      exact fun he => hqp (Option.some.inj he).symm
  | @decremented p moves pc processes next =>
    rw [processes] at hq
    have hold := inv.exiting q task hq
    by_cases hqp : q = p
    · subst q
      rw [hold,pc,next]
      rfl
    · refine hrest ?_ hq
      rw [moves]
      exact fun he => hqp (Option.some.inj he).symm
  | @died p moves pc processes next =>
    rw [processes] at hq
    by_cases hqp : q = p
    · subst q
      obtain ⟨old,hold,he⟩ := Processes.of_die hq
      rw [he,inv.exiting p old hold,pc,next]
      rfl
    · rw [Processes.task_die_of_ne _ hqp] at hq
      refine hrest ?_ hq
      rw [moves]
      exact fun he => hqp (Option.some.inj he).symm
  | @released p moves pc may processes next =>
    rw [processes] at hq
    change Function.update s.processes.task p _ q = some task at hq
    by_cases hqp : q = p
    · subst q
      rw [Function.update_self] at hq
      cases hq
    · rw [Function.update_of_ne hqp] at hq
      refine hrest ?_ hq
      rw [moves]
      exact fun he => hqp (Option.some.inj he).symm

/-- A task that is there and not released stays in its group. -/
lemma ThreadInvariant.group_kept (inv : ThreadInvariant s) (h : Stepped hash32 s act s')
    (present : s.pc q ≠ .absent) (alive : s.pc q ≠ .zombie) :
    s'.processes.group q = s.processes.group q := by
  rw [group_eq_thread]
  cases inv.threadStep h with
  | rests thread =>
    rw [thread]
    rfl
  | moves thread =>
    rw [← group_eq_thread,group_of_update thread]
  | joins free leader thread =>
    rw [thread,Function.update_of_ne]
    · rfl
    · rintro rfl
      exact present ((inv.present _).mpr free)
  | stops group pc thread =>
    rw [← group] at thread
    rw [← group_eq_thread,group_of_update thread]
  | leaves group pc last thread =>
    rw [thread,Function.update_of_ne]
    · rfl
    · rintro rfl
      exact alive pc

theorem ThreadInvariant.stepped (inv : ThreadInvariant s) (h : Stepped hash32 s act s') :
    ThreadInvariant s' where
  present := inv.step_present (inv.threadStep h)
  exiting := inv.step_exiting h
  live := inv.step_live (inv.threadStep h)
  threads := inv.step_threads (inv.threadStep h)
  leader := inv.step_leader (inv.threadStep h)
  born := inv.step_born h

theorem threadInvariant_of_run (h : Run (step hash32) (initial sig) tr s) : ThreadInvariant s :=
  h.invariant threadInvariant_initial fun _ _ _ hs ht => hs.stepped (step_stepped ht)

end System
end ProcessMessagePassing
