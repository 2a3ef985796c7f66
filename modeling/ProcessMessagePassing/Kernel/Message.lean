import ProcessMessagePassing.Mailbox.Basic
import Mathlib.Algebra.Group.Int.Defs
import Mathlib.Logic.Function.Basic

/-! Message objects and the copies to and from user space. -/
namespace ProcessMessagePassing

/-- `MAX_MSG_SIZE` -/
def maxMsgSize : ℤ := 128

/-- The fields of a message that the calls read and write. -/
structure Message where
  sender : Pid
  len : ℤ
  msg : List UInt8
  deriving DecidableEq, Repr

/-- What a call takes for a message: an object of `message_cache`, or the list head of a mailbox
that `list_entry` was given. -/
inductive MessagePtr
  | object (n : ℕ)
  | listHead (mailbox : ℕ)
  deriving DecidableEq, Repr

/-- The message that `mailbox_remove_message` hands out. -/
def MessagePtr.ofEntry (m : ℕ) : ListEntry MessagePtr → MessagePtr
  | .node x => x
  | .head => .listHead m

/-- `message_cache`. Every allocation is a new object; `frees` counts how often an object went
back, `strayFrees` how often something that is no message did. -/
structure MessageCache where
  object : ℕ → Message
  created : ℕ
  frees : ℕ → ℕ
  strayFrees : ℕ

/-- What the memory allocator and user space choose in one step: whether an allocation and
`kthread_run` succeed, the bytes that can be read at the sender's pointer, and what is left in
recycled or foreign memory. -/
structure Oracle where
  alloc : Bool
  kthreadRun : Bool
  buffer : List UInt8
  stale : List UInt8
  staleOwner : Pid
  garbage : Message
  deriving DecidableEq, Repr

/-- Everything succeeds and the memory is clear. -/
def Oracle.clear : Oracle := ⟨true,true,[],[],0,⟨0,0,[]⟩⟩

namespace MessageCache

def empty : MessageCache where
  object := fun _ => ⟨0,0,[]⟩
  created := 0
  frees := fun _ => 0
  strayFrees := 0

def free (h : MessageCache) (n : ℕ) : MessageCache :=
  { h with frees := Function.update h.frees n (h.frees n + 1) }

/-- `message_create`. The bytes after the first `len` are those of the recycled object. -/
def create (h : MessageCache) (sender : Pid) (len : ℤ) (o : Oracle) :
    MessageCache × Except Code ℕ :=
  if maxMsgSize < len ∨ len < 0 then (h,.error .msgLengthError)
  else if o.alloc = false then (h,.error .mailboxError)
  else
    let message := ⟨sender,len,o.buffer.take len.toNat ++ o.stale.drop len.toNat⟩
    let h' := { h with
      object := Function.update h.object h.created message
      created := h.created + 1 }
    if o.buffer.length < len.toNat then (h'.free h.created,.error .msgArgError)
    else (h',.ok h.created)

/-- `message_destroy` -/
def destroy (h : MessageCache) : MessagePtr → MessageCache
  | .object n => h.free n
  | .listHead _ => { h with strayFrees := h.strayFrees + 1 }

/-- What a read through the pointer gives. -/
def read (h : MessageCache) (o : Oracle) : MessagePtr → Message
  | .object n => h.object n
  | .listHead _ => o.garbage

/-- The pointer is to a message that has been created. -/
def Known (h : MessageCache) (x : MessagePtr) : Prop := ∃ n, n < h.created ∧ x = .object n

/-- Messages have been created and destroyed; those that were there have kept their contents. -/
structure Extends (h h' : MessageCache) : Prop where
  created : h.created ≤ h'.created
  object : ∀ n, n < h.created → h'.object n = h.object n

variable {h h' : MessageCache}

theorem Extends.refl (h : MessageCache) : h.Extends h := ⟨Nat.le_refl _,fun _ _ => rfl⟩

theorem Extends.trans {h'' : MessageCache} (hh : h.Extends h') (hh' : h'.Extends h'') :
    h.Extends h'' where
  created := Nat.le_trans hh.created hh'.created
  object n hn := (hh'.object n (Nat.lt_of_lt_of_le hn hh.created)).trans (hh.object n hn)

theorem extends_free (h : MessageCache) (n : ℕ) : h.Extends (h.free n) :=
  ⟨Nat.le_refl _,fun _ _ => rfl⟩

theorem extends_create {sender : Pid} {len : ℤ} {o : Oracle} {r : MessageCache × Except Code ℕ}
    (made : h.create sender len o = r) : h.Extends r.1 := by
  rw [← made]
  have hnew : ∀ message : Message, h.Extends { h with
      object := Function.update h.object h.created message
      created := h.created + 1 } := by
    intro message
    exact ⟨Nat.le_succ _,fun n hn => Function.update_of_ne (Nat.ne_of_lt hn) _ _⟩
  unfold create
  dsimp only
  split_ifs
  · exact .refl h
  · exact .refl h
  · exact (hnew _).trans (extends_free _ _)
  · exact hnew _

/-- A message that is created has the bytes that were read at the sender's pointer. -/
theorem create_eq_ok {sender : Pid} {len : ℤ} {o : Oracle} {x : ℕ}
    (made : h.create sender len o = (h',.ok x)) : 0 ≤ len ∧ len ≤ maxMsgSize ∧
      len.toNat ≤ o.buffer.length ∧ x = h.created ∧ h' = { h with
        object := Function.update h.object h.created
          ⟨sender,len,o.buffer.take len.toNat ++ o.stale.drop len.toNat⟩
        created := h.created + 1 } := by
  unfold create at made
  dsimp only at made
  split_ifs at made with hlen halloc hbuffer <;>
    simp only [Prod.mk.injEq,Except.ok.injEq,reduceCtorEq,and_false] at made
  obtain ⟨rfl,rfl⟩ := made
  exact ⟨by omega,by omega,by omega,rfl,rfl⟩

theorem create_ok {sender : Pid} {len : ℤ} {o : Oracle} {x : ℕ}
    (made : h.create sender len o = (h',.ok x)) : x = h.created ∧ h'.created = h.created + 1 := by
  obtain ⟨-,-,-,rfl,rfl⟩ := create_eq_ok made
  exact ⟨rfl,rfl⟩

/-- A message whose bytes cannot be read is freed where it was created. -/
theorem create_eq_error {sender : Pid} {len : ℤ} {o : Oracle} {code : Code}
    (made : h.create sender len o = (h',.error code)) : h' = h ∨
      h'.created = h.created + 1 ∧
        h'.frees = Function.update h.frees h.created (h.frees h.created + 1) := by
  unfold create at made
  dsimp only at made
  split_ifs at made <;> simp only [Prod.mk.injEq,reduceCtorEq,and_false] at made
  · exact .inl made.1.symm
  · exact .inl made.1.symm
  · obtain ⟨rfl,-⟩ := made
    exact .inr ⟨rfl,rfl⟩

/-- Every message of the list is freed as often as it is on it. -/
theorem frees_destroys (h : MessageCache) (xs : List MessagePtr) (n : ℕ) :
    (xs.foldl destroy h).frees n = h.frees n + xs.count (.object n) := by
  induction xs generalizing h with
  | nil => rfl
  | cons x xs ih =>
    rw [List.foldl_cons,ih,List.count_cons]
    cases x with
    | object k =>
      by_cases hk : n = k
      · subst k
        simp [destroy,free]
        omega
      · have hne : ¬ k = n := fun he => hk he.symm
        simp [destroy,free,hk,hne]
    | listHead k => simp [destroy]

theorem created_destroy (h : MessageCache) (x : MessagePtr) :
    (h.destroy x).created = h.created := by
  cases x <;> rfl

theorem created_destroys (h : MessageCache) (xs : List MessagePtr) :
    (xs.foldl destroy h).created = h.created := by
  induction xs generalizing h with
  | nil => rfl
  | cons x xs ih => rw [List.foldl_cons,ih,created_destroy]

theorem extends_destroy (h : MessageCache) (x : MessagePtr) : h.Extends (h.destroy x) := by
  cases x with
  | object n => exact extends_free h n
  | listHead => exact ⟨Nat.le_refl _,fun _ _ => rfl⟩

theorem extends_destroys (h : MessageCache) (xs : List MessagePtr) :
    h.Extends (xs.foldl destroy h) := by
  induction xs generalizing h with
  | nil => exact .refl h
  | cons x xs ih => exact (extends_destroy h x).trans (ih (h.destroy x))

theorem Known.mono {x : MessagePtr} (known : h.Known x) (hh : h.Extends h') : h'.Known x := by
  obtain ⟨n,hn,rfl⟩ := known
  exact ⟨n,Nat.lt_of_lt_of_le hn hh.created,rfl⟩

/-- A message that has been created reads the same ever after. -/
theorem Known.read_eq {x : MessagePtr} (known : h.Known x) (hh : h.Extends h') (o o' : Oracle) :
    h'.read o' x = h.read o x := by
  obtain ⟨n,hn,rfl⟩ := known
  exact hh.object n hn

end MessageCache

/-- A user pointer, by the number of bytes that can be written at it. -/
abbrev UserPtr := ℕ

/-- The three pointers of a receive. -/
structure RecievePtrs where
  sender : UserPtr
  msg : UserPtr
  len : UserPtr
  deriving DecidableEq, Repr

/-- What `copy_to_user` has written for a call. -/
inductive UserWrite
  | sender (p : Pid)
  | len (n : ℤ)
  | msg (bytes : List UInt8)
  | count (n : ℤ)
  deriving DecidableEq, Repr

/-- `sizeof(pid_t)` and `sizeof(int)` -/
def sizeofInt : ℕ := 4

/-- The third argument of the copy of the bytes, a signed length taken for an unsigned long. -/
def Message.copySize (x : Message) : ℕ := (x.len % 2 ^ 64).toNat

/-- All three pointers of a receive are good for this message. -/
def RecievePtrs.writable (ptrs : RecievePtrs) (x : Message) : Bool :=
  decide (sizeofInt ≤ ptrs.sender ∧ sizeofInt ≤ ptrs.len ∧ x.copySize ≤ ptrs.msg)

/-- The three copies of `__recieve_message` in their order, up to the first that fails. -/
def copyMessage (ptrs : RecievePtrs) (x : Message) : List UserWrite :=
  if ptrs.sender < sizeofInt then []
  else if ptrs.len < sizeofInt then [.sender x.sender]
  else if ptrs.msg < x.copySize then [.sender x.sender,.len x.len]
  else [.sender x.sender,.len x.len,.msg (x.msg.take x.copySize)]

/-- With good pointers all three copies are made. -/
lemma copyMessage_of_writable {ptrs : RecievePtrs} {x : Message} (good : ptrs.writable x = true) :
    copyMessage ptrs x = [.sender x.sender,.len x.len,.msg (x.msg.take x.copySize)] := by
  obtain ⟨hsender,hlen,hmsg⟩ := of_decide_eq_true good
  unfold copyMessage
  rw [if_neg (not_lt.mpr hsender),if_neg (not_lt.mpr hlen),if_neg (not_lt.mpr hmsg)]

end ProcessMessagePassing
