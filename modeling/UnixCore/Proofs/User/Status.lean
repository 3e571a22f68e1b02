import UnixCore.Proofs.Rendezvous.Meeting
import UnixCore.Proofs.Syscall.Results
import UnixCore.User.Calls

/-! Exit codes on their way from a child to its parent. The child's program widens the code to a
register, the kernel narrows it again and keeps it until the parent's wait, puts its low eight bits
into a status word, and the parent's program takes them out of that word. -/

namespace UnixCore.User

open Kernel Syscall

variable {W : Type} {S : Services W} {threads threads' : Threads W} {k k' k₁ : Kernel W}
  {p c : ProcessId} {pid : Pid} {code : Int32}

/-! ### The kernel as a machine -/

/-- Where a program has put what its calls point to. -/
structure Pointers where
  path : UserAddr := .null
  slots : UserAddr := .null
  buffer : UserAddr := .null
  status : UserAddr := .null

/-- The argument registers of a call. -/
def Trap.args (ptrs : Pointers) : Trap → List UInt64
  | fork => []
  | execv _ _ => [ptrs.path.raw, ptrs.slots.raw]
  | exit code => [code]
  | waitpid pid options => [pid, ptrs.status.raw, options]
  | getpid => []
  | openFile _ flags => [ptrs.path.raw, flags]
  | dup2 old new => [old, new]
  | close fd => [fd]
  | read fd len => [fd, ptrs.buffer.raw, len]
  | write fd bytes => [fd, ptrs.buffer.raw, .ofNat bytes.length]
  | lseek fd pos whence => [fd, pos, whence]

def Trap.frame (ptrs : Pointers) (t : Trap) : TrapFrame := .ofCall t.number (t.args ptrs)

/-- What a program finds in its memory. -/
def found {α : Type} (p : ProcessId) (look : AddressSpace → Except Errno α) (k : Kernel W) :
    Option α :=
  (k.process p).space.bind fun space => (look space).toOption

end UnixCore.User
