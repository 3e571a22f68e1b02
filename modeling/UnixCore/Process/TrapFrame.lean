/-! The user registers that a system call reads and writes. -/

namespace UnixCore

/-- Length of the instruction that traps into the kernel. -/
def trapLength : UInt64 := 4

structure TrapFrame where
  number : UInt64 := 0
  args : Vector UInt64 6 := .replicate 6 0
  retval : Int64 := 0
  pc : UInt64 := 0
  sp : UInt64 := 0
  deriving DecidableEq, Repr, Inhabited

namespace TrapFrame

/-- The frame of a call with the given arguments. There is room for six; the rest are zero. -/
def ofCall (number : UInt64) (args : List UInt64) : TrapFrame :=
  { number, args := .ofFn fun i => args.getD i 0 }

def arg (f : TrapFrame) (index : Nat) : UInt64 := f.args[index]?.getD 0

def setReturn (f : TrapFrame) (value : Int64) : TrapFrame := { f with retval := value }

/-- Steps past the trapping instruction, so that the thread does not trap again. -/
def advancePc (f : TrapFrame) : TrapFrame := { f with pc := f.pc + trapLength }

/-- The frame that a forked child resumes with: its fork gives 0. -/
def forForkedChild (f : TrapFrame) : TrapFrame := (f.setReturn 0).advancePc

end TrapFrame

end UnixCore
