import UnixCore.Syscall.Handlers

/-! The way of a system call from the trap to the return of its thread: a value that is not negative
on success, a negated error code on failure. -/

namespace UnixCore

inductive TrapEnd
  | resumed (frame : TrapFrame)
  | threadEnded
  | entered (entry : UserEntry)
  | blocked
  deriving DecidableEq, Repr

namespace Syscall

variable {W : Type}

def dispatch (S : Services W) (threads : Threads W) (p : ProcessId) (frame : TrapFrame)
    (k : Kernel W) : SyscallEnd × Kernel W :=
  let run := do handle S threads p frame (← Action.ofExcept (ofNumber frame.number))
  match run k with
  | .ok done k => (done, k)
  | .error e k =>
    (.value e.returnValue, k.report (.callFailed (k.process p).pid frame.number e))

/-- Runs the call and prepares the thread for what follows: the value in its return register and
the program counter behind the trapping instruction, unless the call does not return. -/
def trap (S : Services W) (threads : Threads W) (p : ProcessId) (frame : TrapFrame)
    (k : Kernel W) : TrapEnd × Kernel W :=
  match dispatch S threads p frame k with
  | (.value v, k) => (.resumed (frame.setReturn v).advancePc, k)
  | (.exit, k) => (.threadEnded, k)
  | (.exec entry, k) => (.entered entry, k)
  | (.blocked, k) => (.blocked, k)

end Syscall

end UnixCore
