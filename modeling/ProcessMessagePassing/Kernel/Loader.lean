import ProcessMessagePassing.Kernel.Interceptor
import ProcessMessagePassing.Kernel.SysCallTable

/-! Loading and unloading in memory. The five entries are words of a page that may be read-only, and
`disable_page_protection` works on the `cr0` of the processor that the loading thread is on just then. -/
namespace ProcessMessagePassing
open Concurrency

/-- The kernel and the module as they lie in memory. -/
structure Image (M : Machine) extends Symbols M where
  /-- The address of `sys_call_table`. -/
  table : M.Word
  /-- `__NR_cs3013_syscall1` and the other numbers. -/
  nr : Entry → ℕ
  /-- The addresses of `__send_message` and the other functions of the module. -/
  handler : Entry → M.Word
  readOnly : M.Word → Bool
  table_ne : table ≠ 0
  nr_injective : Function.Injective nr
  nr_lt : ∀ e, nr e < M.words

/-- The statements of `interceptor_start` and `interceptor_end`, with those on `cr0`. -/
inductive LoadStatement
  | plain (x : Statement)
  | disablePageProtection
  | enablePageProtection
  deriving DecidableEq, Repr

/-- The statement, where it is not about `cr0`. -/
def LoadStatement.statement : LoadStatement → Option Statement
  | .plain x => some x
  | _ => none

def loaderStart : List LoadStatement :=
  [.plain .messageInit,.plain .mailboxInit,.plain .mailboxManagerInit,
    .plain (.store .cs3013Syscall1),.plain (.store .cs3013Syscall2),.plain (.store .cs3013Syscall3),
    .plain (.store .exit),.plain (.store .exitGroup),
    .disablePageProtection,
    .plain (.replace .cs3013Syscall1),.plain (.replace .cs3013Syscall2),
    .plain (.replace .cs3013Syscall3),.plain (.replace .exit),.plain (.replace .exitGroup),
    .enablePageProtection]

def loaderEnd : List LoadStatement :=
  [.plain .messageExit,.plain .mailboxExit,.plain .mailboxManagerExit,
    .disablePageProtection,
    .plain (.revert .cs3013Syscall1),.plain (.revert .cs3013Syscall2),
    .plain (.revert .cs3013Syscall3),.plain (.revert .exit),.plain (.revert .exitGroup),
    .enablePageProtection]

/-- What runs in the state. -/
def ModuleState.code : ModuleState → List LoadStatement
  | .coming => loaderStart
  | .going => loaderEnd
  | _ => []

/-- `disable_page_protection` has run, and `enable_page_protection` has not. -/
def patching (rest : List LoadStatement) : Bool :=
  decide (.enablePageProtection ∈ rest ∧ .disablePageProtection ∉ rest)

/-- The entry is that of the module, with this still to run. -/
def ModuleState.replaces (rest : List LoadStatement) (e : Entry) : ModuleState → Bool
  | .unloaded => false
  | .coming | .live => decide (.plain (.replace e) ∉ rest)
  | .going | .gone => decide (.plain (.revert e) ∈ rest)

/-- The machine with the module on its way in or out. -/
structure Loader (M : Machine) where
  system : System
  state : ModuleState
  /-- What `interceptor_start` or `interceptor_end` has still to run. -/
  rest : List LoadStatement
  /-- `sys_call_table`, as the module has it. -/
  sysCallTable : M.Word
  memory : Memory M
  /-- The control register of each processor. -/
  cr0 : ℕ → M.Word
  /-- The processor that the loading thread is on. -/
  cpu : ℕ
  ref : Entry → M.Word
  cache : Cache → CacheState
  oops : Bool

/-- Bit 16 of `cr0`. -/
def Machine.writeProtect (M : Machine) : M.Word := BitVec.ofNat M.bits 0x10000

/-- What the kernel's entries hold before the module is loaded. -/
structure Boot {M : Machine} (image : Image M) where
  memory : Memory M
  cr0 : ℕ → M.Word
  word : Entry → M.Word
  mapped : ∀ e, memory (M.slot image.table (image.nr e)) = some (word e)
  foreign : ∀ e, word e ≠ image.handler e

namespace Loader
variable {M : Machine} {image : Image M}

def initial (boot : Boot image) (sig : Actor → Bool) : Loader M where
  system := .initial sig
  state := .unloaded
  rest := []
  sysCallTable := 0
  memory := boot.memory
  cr0 := boot.cr0
  cpu := 0
  ref := fun _ => 0
  cache := fun _ => .missing
  oops := false

/-- The module is loaded and unloaded, its statements run, the loading thread moves to another
processor, somebody else writes to memory or maps it, and the kernel takes its steps. -/
inductive Action (M : Machine)
  | insmod
  | rmmod
  | statement (memory : Bool)
  | migrate (cpu : ℕ)
  | poke (address : M.Word) (word : Option M.Word)
  | kernel (act : ProcessMessagePassing.Action)

variable (image : Image M) (s : Loader M)

/-- `sys_call_table[nr]`, for the module. -/
def entry (e : Entry) : M.Word := M.slot s.sysCallTable (image.nr e)

/-- A write to the address faults. -/
def writeFaults (address : M.Word) : Bool :=
  (s.memory address).isNone || image.readOnly address && decide (s.cr0 s.cpu &&& M.writeProtect ≠ 0)

def faults : LoadStatement → Bool
  | .plain (.store e) => (s.memory (s.entry image e)).isNone
  | .plain (.replace e) => s.writeFaults image (s.entry image e)
  | .plain (.revert e) => s.writeFaults image (s.entry image e)
  | _ => false

def setCr0 (w : M.Word) : Loader M := { s with cr0 := Function.update s.cr0 s.cpu w }

def write (address w : M.Word) : Loader M :=
  { s with memory := Function.update s.memory address (some w) }

/-- The effect of a statement that does not fault. -/
def runStatement (memory : Bool) : LoadStatement → Loader M
  | .plain .messageInit =>
    { s with cache := Function.update s.cache .message (if memory then .created else .missing) }
  | .plain .mailboxInit =>
    { s with cache := Function.update s.cache .mailbox (if memory then .created else .missing) }
  | .plain .mailboxManagerInit => { s with system := { s.system with table := .init } }
  | .plain (.store e) =>
    { s with ref := Function.update s.ref e ((s.memory (s.entry image e)).getD 0) }
  | .plain (.replace e) => s.write (s.entry image e) (image.handler e)
  | .plain .messageExit => { s with cache := Function.update s.cache .message .destroyed }
  | .plain .mailboxExit => { s with cache := Function.update s.cache .mailbox .destroyed }
  | .plain .mailboxManagerExit => s
  | .plain (.revert e) => s.write (s.entry image e) (s.ref e)
  | .disablePageProtection => s.setCr0 (s.cr0 s.cpu &&& ~~~M.writeProtect)
  | .enablePageProtection => s.setCr0 (s.cr0 s.cpu ||| M.writeProtect)

end Loader

namespace Image
variable {M : Machine} (image : Image M)

/-- `sys_call_table[nr]`, for the kernel. -/
def slot (e : Entry) : M.Word := M.slot image.table (image.nr e)

/-- What the entries point to. -/
def view (memory : Memory M) (e : Entry) : Handler :=
  if memory (image.slot e) = some (image.handler e) then .replaced else .original

end Image

namespace Loader
variable {M : Machine} (image : Image M)

/-- `find_sys_call_table` runs at once; the load is cancelled where it comes to nothing. A fault ends
the thread that loads. -/
def step (hash32 : Pid → ℕ) (s : Loader M) : Action M → Option (Loader M)
  | .insmod =>
    if s.state = .unloaded then
      match findSysCallTable image.toSymbols s.memory M.words with
      | some (.table sct) =>
        if sct = 0 then some { s with sysCallTable := 0 }
        else some { s with sysCallTable := sct, state := .coming, rest := loaderStart }
      | some .null => some { s with sysCallTable := 0 }
      | some .fault => some { s with oops := true }
      | none => none
    else none
  | .rmmod =>
    if s.state = .live then
      if s.sysCallTable = 0 then some { s with state := .gone }
      else some { s with state := .going, rest := loaderEnd }
    else none
  | .statement memory =>
    match s.rest with
    | [] => none
    | x :: xs =>
      if s.faults image x then some { s with oops := true, rest := [] }
      else some { s.runStatement image memory x with
        rest := xs
        state := if xs = [] then s.state.finish else s.state }
  | .migrate cpu => some { s with cpu := cpu }
  | .poke address w => some { s with memory := Function.update s.memory address w }
  | .kernel act =>
    (s.system.dispatch hash32 (image.view s.memory) act).map fun system => { s with system := system }

/-- The search finds the table of the kernel or nothing, the loading thread stays where it is while the
protection is off, and nobody else writes to the five entries. -/
def Sane (s : Loader M) : Action M → Prop
  | .insmod =>
    match findSysCallTable image.toSymbols s.memory M.words with
    | some (.table sct) => sct = 0 ∨ sct = image.table
    | some .fault => False
    | _ => True
  | .migrate _ => patching s.rest = false
  | .poke address _ => ∀ e, address ≠ image.slot e
  | _ => True

end Loader

end ProcessMessagePassing
