import UnixCore.Proofs.Kernel.Memory
import UnixCore.Proofs.Rendezvous.ExactlyOnce
import UnixCore.Syscall.Handlers

/-! Waitpid calls that fail. The child is reaped before its status word is stored, so that an
address for which the caller's memory has no room loses the child with its exit code. A waitpid that
fails in any other way loses nobody. -/

namespace UnixCore.Syscall

open Kernel

variable {W : Type} {S : Services W} {labels : List Label} {s : System W} {k k' : Kernel W}
  {p : ProcessId} {pid : Pid} {status : UserAddr} {options : Int32} {threads : Threads W}

/-- A status word can be stored at an address, or need not be. -/
def Storable (k : Kernel W) (p : ProcessId) (status : UserAddr) : Prop :=
  status.isNull = true ∨
    ∃ space, (k.process p).space = some space ∧ space.memory.Covers status 4

end UnixCore.Syscall
