import Mathlib.Logic.Function.Basic
import Mathlib.Data.List.Basic

/-! An atomic bounded double-ended queue and its callers. A call is pending from its invocation
on; it either takes its one atomic step and then returns with success, or it is refused and
returns with the reason, having done nothing. Closing the queue stops pushes for good and lets
pops drain it. -/
namespace Concurrency.BoundedDeque

variable {α μ : Type*}

inductive Op (μ : Type*)
  | push (x : μ) (front block : Bool)
  | pop (block : Bool)
  | close
  deriving DecidableEq

inductive Refusal
  | full
  | empty
  | closed
  | interrupted
  deriving DecidableEq, Repr

/-- Where the call of one caller stands; `done` has the message its atomic step took. -/
inductive Status (μ : Type*)
  | idle
  | pending (op : Op μ)
  | done (taken : Option μ)

structure State (α μ : Type*) where
  contents : List μ
  closed : Bool
  status : α → Status μ
  signalled : α → Bool

inductive Event (α μ : Type*)
  | call (a : α) (op : Op μ)
  | commit (a : α)
  | ret (a : α) (result : Except Refusal (Option μ))
  | signal (a : α)
  | handle (a : α)
  deriving DecidableEq

/-- The atomic step is internal; calls, returns and signals can be seen. -/
def Event.visible : Event α μ → Bool
  | .commit _ => false
  | _ => true

/-- The atomic step of an operation: the contents and the flag before it, those after it, and
the message it takes. -/
inductive Commit (capacity : ℕ) : Op μ → List μ → Bool → List μ → Bool → Option μ → Prop
  | pushFront {x block l} (room : l.length < capacity) :
      Commit capacity (.push x true block) l false (x :: l) false none
  | pushBack {x block l} (room : l.length < capacity) :
      Commit capacity (.push x false block) l false (l ++ [x]) false none
  | pop {block x l closed} : Commit capacity (.pop block) (x :: l) closed l closed (some x)
  | close {l closed} : Commit capacity .close l closed l true none

/-- When an operation may be refused: the contents, the flag, and whether a signal is pending
for the caller. -/
inductive Refused (capacity : ℕ) : Op μ → List μ → Bool → Bool → Refusal → Prop
  | pushClosed {x front block l signalled} :
      Refused capacity (.push x front block) l true signalled .closed
  | pushFull {x front l signalled} (full : l.length = capacity) :
      Refused capacity (.push x front false) l false signalled .full
  | pushInterrupted {x front l} (full : l.length = capacity) :
      Refused capacity (.push x front true) l false true .interrupted
  | popClosed {block signalled} : Refused capacity (.pop block) [] true signalled .closed
  | popEmpty {signalled} : Refused capacity (.pop false) [] false signalled .empty
  | popInterrupted : Refused capacity (.pop true) [] false true .interrupted

variable [DecidableEq α]

inductive Step (capacity : ℕ) (t : State α μ) : Event α μ → State α μ → Prop
  | call {a op} (idle : t.status a = .idle) :
      Step capacity t (.call a op) { t with status := Function.update t.status a (.pending op) }
  | commit {a op l closed taken} (pending : t.status a = .pending op)
      (atomic : Commit capacity op t.contents t.closed l closed taken) :
      Step capacity t (.commit a)
        { t with
          contents := l
          closed := closed
          status := Function.update t.status a (.done taken) }
  | ret {a taken} (done : t.status a = .done taken) :
      Step capacity t (.ret a (.ok taken))
        { t with status := Function.update t.status a .idle }
  | refuse {a op reason} (pending : t.status a = .pending op)
      (refused : Refused capacity op t.contents t.closed (t.signalled a) reason) :
      Step capacity t (.ret a (.error reason))
        { t with status := Function.update t.status a .idle }
  | signal {a} :
      Step capacity t (.signal a) { t with signalled := Function.update t.signalled a true }
  | handle {a} :
      Step capacity t (.handle a) { t with signalled := Function.update t.signalled a false }

omit [DecidableEq α] in
/-- An empty open queue that nobody is calling. -/
def initial (signalled : α → Bool) : State α μ :=
  ⟨[],false,fun _ => .idle,signalled⟩

end Concurrency.BoundedDeque
