import ProcessMessagePassing.Concurrency.Search

/-! The search for `sys_call_table`. It goes through the memory word by word, up from `PAGE_OFFSET`
and round to zero, and it has no end but a match or a word that cannot be read. -/
namespace ProcessMessagePassing
open Concurrency Function

/-- A machine whose `unsigned long` is as wide as its pointers. -/
structure Machine where
  bits : ℕ
  shift : ℕ
  bits_eq : bits = 8 * 2 ^ shift
  pointer : 0 < shift
  width : bits ≤ 64

namespace Machine

def i386 : Machine := ⟨32,2,rfl,by decide,by decide⟩

abbrev Word (M : Machine) := BitVec M.bits

/-- `sizeof(void *)` -/
def sizeofPointer (M : Machine) : M.Word := BitVec.ofNat M.bits (2 ^ M.shift)

/-- How many words the memory has. -/
def words (M : Machine) : ℕ := 2 ^ (M.bits - M.shift)

end Machine

/-- `ULLONG_MAX` -/
def ullongMax : ℕ := 2 ^ 64 - 1

/-- What the kernel is built with. -/
structure Symbols (M : Machine) where
  pageOffset : M.Word
  sysClose : M.Word
  nrClose : ℕ
  aligned : 2 ^ M.shift ∣ pageOffset.toNat

/-- The word at an address, if it is mapped. -/
abbrev Memory (M : Machine) := M.Word → Option M.Word

/-- How the search ends: with a table, with `NULL`, or in a fault. -/
inductive Found (M : Machine)
  | table (sct : M.Word)
  | null
  | fault
  deriving DecidableEq

variable {M : Machine}

/-- `&sct[nr]` -/
def Machine.slot (M : Machine) (sct : M.Word) (nr : ℕ) : M.Word :=
  sct + BitVec.ofNat M.bits nr * M.sizeofPointer

/-- One round of the loop. -/
def tryOffset (sym : Symbols M) (memory : Memory M) (offset : M.Word) : Option (Found M) :=
  if offset.toNat < ullongMax then
    match memory (M.slot offset sym.nrClose) with
    | some w => if w = sym.sysClose then some (.table offset) else none
    | none => some .fault
  else some .null

/-- `find_sys_call_table`, as far as it comes in so many rounds. -/
def findSysCallTable (sym : Symbols M) (memory : Memory M) (rounds : ℕ) : Option (Found M) :=
  Search.run (tryOffset sym memory) (· + M.sizeofPointer) rounds sym.pageOffset

/-- The address of the given round. -/
def Symbols.offset (sym : Symbols M) (i : ℕ) : M.Word := (· + M.sizeofPointer)^[i] sym.pageOffset

/-- The word that the loop looks at there. -/
def Symbols.probe (sym : Symbols M) (memory : Memory M) (i : ℕ) : Option M.Word :=
  memory (M.slot (sym.offset i) sym.nrClose)

namespace Machine

lemma shift_le (M : Machine) : M.shift ≤ M.bits := by
  rw [M.bits_eq]
  have hlt := Nat.lt_two_pow_self (n := M.shift)
  omega

lemma two_pow_bits (M : Machine) : M.words * 2 ^ M.shift = 2 ^ M.bits := by
  rw [words,← Nat.pow_add,Nat.sub_add_cancel M.shift_le]

lemma words_pos (M : Machine) : 0 < M.words := Nat.two_pow_pos _

lemma toNat_iterate (x : M.Word) (n : ℕ) :
    ((· + M.sizeofPointer)^[n] x).toNat = (x.toNat + n * 2 ^ M.shift) % 2 ^ M.bits := by
  induction n with
  | zero => simp [Nat.mod_eq_of_lt x.isLt]
  | succ n ih =>
    rw [iterate_succ_apply',BitVec.toNat_add,ih,sizeofPointer,BitVec.toNat_ofNat,← Nat.add_mod]
    congr 1
    rw [Nat.succ_mul,Nat.add_assoc]

/-- The addresses come round. -/
lemma periodic (x : M.Word) : IsPeriodicPt (· + M.sizeofPointer) M.words x := by
  apply BitVec.eq_of_toNat_eq
  rw [toNat_iterate,two_pow_bits,Nat.add_mod_right,Nat.mod_eq_of_lt x.isLt]

end Machine

namespace Symbols
variable (sym : Symbols M) (memory : Memory M)

lemma toNat_offset (i : ℕ) :
    (sym.offset i).toNat = (sym.pageOffset.toNat + i * 2 ^ M.shift) % 2 ^ M.bits :=
  Machine.toNat_iterate sym.pageOffset i

/-- Every address of the search is one of a word, and so never the last one of all. -/
lemma offset_lt (i : ℕ) : (sym.offset i).toNat < ullongMax := by
  have hdvd : 2 ^ M.shift ∣ (sym.offset i).toNat := by
    rw [toNat_offset]
    refine (Nat.dvd_mod_iff (pow_dvd_pow 2 M.shift_le)).mpr ?_
    exact Nat.dvd_add sym.aligned (Nat.dvd_mul_left _ _)
  have heven : 2 ∣ (sym.offset i).toNat := (dvd_pow_self 2 (Nat.ne_of_gt M.pointer)).trans hdvd
  have hbits : 2 ^ M.bits ≤ 2 ^ 64 := Nat.pow_le_pow_right (by decide) M.width
  have hlt := (sym.offset i).isLt
  unfold ullongMax
  omega

/-- The condition of the loop always holds. -/
lemma tryOffset_offset (i : ℕ) : tryOffset sym memory (sym.offset i) =
    match sym.probe memory i with
    | some w => if w = sym.sysClose then some (.table (sym.offset i)) else none
    | none => some .fault := if_pos (sym.offset_lt i)

/-- The search goes past the address. -/
def Passes (i : ℕ) : Prop := ∃ w, sym.probe memory i = some w ∧ w ≠ sym.sysClose

variable {sym memory}

lemma passes_iff {i : ℕ} : tryOffset sym memory (sym.offset i) = none ↔ sym.Passes memory i := by
  rw [tryOffset_offset]
  unfold Passes
  cases hprobe : sym.probe memory i with
  | none => simp
  | some w => simp

lemma table_iff {i : ℕ} {sct : M.Word} : tryOffset sym memory (sym.offset i) = some (.table sct) ↔
    sym.probe memory i = some sym.sysClose ∧ sct = sym.offset i := by
  rw [tryOffset_offset]
  cases hprobe : sym.probe memory i with
  | none => simp
  | some w => simp [eq_comm]

lemma not_null {i : ℕ} : tryOffset sym memory (sym.offset i) ≠ some .null := by
  rw [tryOffset_offset]
  cases hprobe : sym.probe memory i with
  | none => simp
  | some w => simp

end Symbols

variable {sym : Symbols M} {memory : Memory M}

/-- The search for the table never comes back with `NULL` from its end. Where it comes back, it is with
the first address, up from `PAGE_OFFSET` and round, whose entry for `close` is `sys_close`. It does so
within one round through the memory, or it does not end at all; and that is what it does where every
word can be read and none of them matches. -/
theorem find_sys_call_table_spec (sym : Symbols M) (memory : Memory M) :
    (∀ rounds, findSysCallTable sym memory rounds ≠ some .null) ∧
    (∀ rounds sct, findSysCallTable sym memory rounds = some (.table sct) ↔ ∃ i < rounds,
      sct = sym.offset i ∧ sym.probe memory i = some sym.sysClose ∧ ∀ j < i, sym.Passes memory j) ∧
    (∀ rounds, findSysCallTable sym memory rounds = none ∨
      findSysCallTable sym memory rounds = findSysCallTable sym memory M.words) ∧
    ((∀ rounds, findSysCallTable sym memory rounds = none) ↔
      ∀ i < M.words, sym.Passes memory i) := by
  have hperiod := Machine.periodic sym.pageOffset
  refine ⟨?_,?_,?_,?_⟩
  · intro rounds hnull
    obtain ⟨i,-,hi,-⟩ := Search.run_eq_some_iff.mp hnull
    exact Symbols.not_null hi
  · intro rounds sct
    refine Search.run_eq_some_iff.trans (exists_congr fun i => and_congr_right fun _ => ?_)
    constructor
    · rintro ⟨hi,hbefore⟩
      obtain ⟨hprobe,hsct⟩ := Symbols.table_iff.mp hi
      exact ⟨hsct,hprobe,fun j hj => Symbols.passes_iff.mp (hbefore j hj)⟩
    · rintro ⟨hsct,hprobe,hbefore⟩
      exact ⟨Symbols.table_iff.mpr ⟨hprobe,hsct⟩,fun j hj => Symbols.passes_iff.mpr (hbefore j hj)⟩
  · exact Search.run_eq_or hperiod M.words_pos
  · constructor
    · intro hnever i hi
      exact Symbols.passes_iff.mp (Search.run_eq_none_iff.mp (hnever M.words) i hi)
    · intro hpasses
      refine Search.run_of_period hperiod M.words_pos ?_
      exact Search.run_eq_none_iff.mpr fun i hi => Symbols.passes_iff.mpr (hpasses i hi)

end ProcessMessagePassing
