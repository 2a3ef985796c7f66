import ProcessMessagePassing.Mailbox.Basic
import Mathlib.Logic.Function.Basic

/-! The processes of the kernel, as far as the module can tell them apart: the tasks by their
ids, and for each thread group what its threads share. -/
namespace ProcessMessagePassing

/-- `task_struct` with the fields that are read: the `PF_EXITING` flag and whether the state is
`TASK_DEAD`. -/
structure Task where
  tgid : Pid
  uid : ℕ
  exiting : Bool
  dead : Bool
  deriving DecidableEq, Repr

structure Processes where
  task : Pid → Option Task
  /-- `signal->live` of each thread group. -/
  live : Pid → ℤ
  /-- How many tasks of the thread group have not been released. -/
  threads : Pid → ℕ
  /-- The whole group is being killed. -/
  groupExit : Pid → Bool
  /-- How many processes have been started under this id. -/
  births : Pid → ℕ

namespace Processes

/-- No process has been started. -/
def initial : Processes where
  task := fun _ => none
  live := fun _ => 0
  threads := fun _ => 0
  groupExit := fun _ => false
  births := fun _ => 0

/-- `is_process_valid` -/
def isProcessValid (ps : Processes) (process : Pid) : Bool :=
  match ps.task process with
  | some task =>
    if task.dead then false
    else if task.uid < 1000 then false
    else if task.exiting then false
    else true
  | none => false

/-- `current->tgid` -/
def tgid (ps : Processes) (p : Pid) : Pid := ((ps.task p).map Task.tgid).getD p

def setTask (ps : Processes) (p : Pid) (task : Task) : Processes :=
  { ps with task := Function.update ps.task p (some task) }

/-- A process of the given user starts with its first thread. -/
def newProcess (ps : Processes) (p : Pid) (uid : ℕ) : Processes where
  task := Function.update ps.task p (some ⟨p,uid,false,false⟩)
  live := Function.update ps.live p 1
  threads := Function.update ps.threads p 1
  groupExit := Function.update ps.groupExit p false
  births := Function.update ps.births p (ps.births p + 1)

/-- A thread of the group of `parent` starts. -/
def clone (ps : Processes) (parent : Task) (p : Pid) : Processes :=
  { ps with
    task := Function.update ps.task p (some ⟨parent.tgid,parent.uid,false,false⟩)
    live := Function.update ps.live parent.tgid (ps.live parent.tgid + 1)
    threads := Function.update ps.threads parent.tgid (ps.threads parent.tgid + 1) }

def setGroupExit (ps : Processes) (group : Pid) : Processes :=
  { ps with groupExit := Function.update ps.groupExit group true }

/-- `exit_signals` sets `PF_EXITING`. -/
def setExiting (ps : Processes) (p : Pid) : Processes :=
  match ps.task p with
  | some task => ps.setTask p { task with exiting := true }
  | none => ps

/-- `atomic_dec_and_test(&signal->live)` -/
def decrementLive (ps : Processes) (p : Pid) : Processes :=
  { ps with live := Function.update ps.live (ps.tgid p) (ps.live (ps.tgid p) - 1) }

/-- The state of the task becomes `TASK_DEAD`. -/
def die (ps : Processes) (p : Pid) : Processes :=
  match ps.task p with
  | some task => ps.setTask p { task with dead := true }
  | none => ps

/-- A dead task is released; the leader goes last. -/
def mayRelease (ps : Processes) (p : Pid) : Bool :=
  ps.tgid p ≠ p || ps.threads p = 1

def release (ps : Processes) (p : Pid) : Processes :=
  { ps with
    task := Function.update ps.task p none
    threads := Function.update ps.threads (ps.tgid p) (ps.threads (ps.tgid p) - 1) }

/-- The thread group of a task that has not been released. -/
def group (ps : Processes) (p : Pid) : Option Pid := (ps.task p).map Task.tgid

variable {ps : Processes} {p q g : Pid} {task : Task}

lemma tgid_of_group (h : ps.group p = some g) : ps.tgid p = g := by
  unfold tgid
  rw [show (ps.task p).map Task.tgid = some g from h]
  rfl

lemma group_of_task (h : ps.task p = some task) : ps.group p = some task.tgid :=
  congrArg (Option.map Task.tgid) h

lemma group_eq_none : ps.group p = none ↔ ps.task p = none := Option.map_eq_none_iff

lemma task_setTask_self (ps : Processes) (p : Pid) (task : Task) :
    (ps.setTask p task).task p = some task := Function.update_self _ _ _

lemma group_setTask (h : ps.group p = some task.tgid) : (ps.setTask p task).group = ps.group := by
  have hupdate : (ps.setTask p task).group = Function.update ps.group p (some task.tgid) := by
    funext q
    exact Function.apply_update (fun _ => Option.map Task.tgid) ps.task p _ q
  rw [hupdate]
  exact Function.update_eq_self_iff.mpr h.symm

@[simp] lemma group_setExiting (ps : Processes) (p : Pid) :
    (ps.setExiting p).group = ps.group := by
  unfold setExiting
  cases h : ps.task p with
  | some task =>
    have hg : ps.group p = some task.tgid := group_of_task h
    exact group_setTask hg
  | none => rfl

@[simp] lemma live_setExiting (ps : Processes) (p : Pid) :
    (ps.setExiting p).live = ps.live := by
  unfold setExiting
  cases ps.task p <;> rfl

@[simp] lemma live_die (ps : Processes) (p : Pid) : (ps.die p).live = ps.live := by
  unfold die
  cases ps.task p <;> rfl

@[simp] lemma threads_setExiting (ps : Processes) (p : Pid) :
    (ps.setExiting p).threads = ps.threads := by
  unfold setExiting
  cases ps.task p <;> rfl

@[simp] lemma threads_die (ps : Processes) (p : Pid) : (ps.die p).threads = ps.threads := by
  unfold die
  cases ps.task p <;> rfl

@[simp] lemma births_setExiting (ps : Processes) (p : Pid) :
    (ps.setExiting p).births = ps.births := by
  unfold setExiting
  cases ps.task p <;> rfl

@[simp] lemma births_die (ps : Processes) (p : Pid) : (ps.die p).births = ps.births := by
  unfold die
  cases ps.task p <;> rfl

@[simp] lemma group_die (ps : Processes) (p : Pid) : (ps.die p).group = ps.group := by
  unfold die
  cases h : ps.task p with
  | some task =>
    have hg : ps.group p = some task.tgid := group_of_task h
    exact group_setTask hg
  | none => rfl

@[simp] lemma group_decrementLive (ps : Processes) (p : Pid) :
    (ps.decrementLive p).group = ps.group := rfl

@[simp] lemma group_setGroupExit (ps : Processes) (g : Pid) :
    (ps.setGroupExit g).group = ps.group := rfl

lemma task_newProcess (ps : Processes) (p : Pid) (uid : ℕ) :
    (ps.newProcess p uid).task = Function.update ps.task p (some ⟨p,uid,false,false⟩) := rfl

lemma task_clone (ps : Processes) (parent : Task) (p : Pid) : (ps.clone parent p).task =
    Function.update ps.task p (some ⟨parent.tgid,parent.uid,false,false⟩) := rfl

lemma task_release (ps : Processes) (p : Pid) :
    (ps.release p).task = Function.update ps.task p none := rfl

lemma group_newProcess (ps : Processes) (p : Pid) (uid : ℕ) :
    (ps.newProcess p uid).group = Function.update ps.group p (some p) := by
  funext q
  exact Function.apply_update (fun _ => Option.map Task.tgid) ps.task p _ q

lemma group_clone (ps : Processes) (parent : Task) (p : Pid) :
    (ps.clone parent p).group = Function.update ps.group p (some parent.tgid) := by
  funext q
  exact Function.apply_update (fun _ => Option.map Task.tgid) ps.task p _ q

lemma group_release (ps : Processes) (p : Pid) :
    (ps.release p).group = Function.update ps.group p none := by
  funext q
  exact Function.apply_update (fun _ => Option.map Task.tgid) ps.task p _ q

lemma exiting_of_setExiting (h : (ps.setExiting p).task p = some task) : task.exiting = true := by
  unfold setExiting at h
  cases ht : ps.task p with
  | some t =>
    rw [ht] at h
    dsimp only at h
    rw [task_setTask_self] at h
    cases h
    rfl
  | none =>
    rw [ht] at h
    exact absurd (ht.symm.trans h) nofun

lemma task_setExiting_of_ne (ps : Processes) (h : q ≠ p) :
    (ps.setExiting p).task q = ps.task q := by
  unfold setExiting
  cases ps.task p with
  | some t => exact Function.update_of_ne h _ _
  | none => rfl

lemma task_die_of_ne (ps : Processes) (h : q ≠ p) : (ps.die p).task q = ps.task q := by
  unfold die
  cases ps.task p with
  | some t => exact Function.update_of_ne h _ _
  | none => rfl

lemma of_die (h : (ps.die p).task p = some task) :
    ∃ t, ps.task p = some t ∧ task.exiting = t.exiting := by
  unfold die at h
  cases ht : ps.task p with
  | some t =>
    rw [ht] at h
    dsimp only at h
    rw [task_setTask_self] at h
    cases h
    exact ⟨t,rfl,rfl⟩
  | none =>
    rw [ht] at h
    exact absurd (ht.symm.trans h) nofun

end Processes
end ProcessMessagePassing
