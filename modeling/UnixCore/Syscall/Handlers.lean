import UnixCore.Kernel.Lifecycle
import UnixCore.Syscall.Number

/-! The system calls: each takes its arguments from the trap frame, moves data between user memory
and the kernel, and calls the operation. -/

namespace UnixCore

inductive SyscallEnd
  | value (v : Int64)
  | exit
  | exec (entry : UserEntry)
  | blocked
  deriving DecidableEq, Repr

namespace Syscall

variable {W : Type}

/-- Bytes of the largest single transfer. Longer requests are cut. -/
def maxTransfer : Nat := 64 * 1024

/-- A descriptor argument. Negative values name no slot. -/
def descriptor (raw : UInt64) : Except Errno Nat :=
  let signed := raw.toInt64.toInt
  if 0 ≤ signed then .ok signed.toNat else .error .badFileDescriptor

/-- The status word of a normal exit: the low eight bits of the code, above a zero byte. -/
def encodeExitStatus (code : Int32) : UInt32 :=
  (code.toUInt32 &&& 0xff) <<< 8

def pidValue (pid : Pid) : Int64 := .ofNat pid.toNat

/-- A path of the caller's, which must be text. -/
def copyInPath (p : ProcessId) (path : UserAddr) : Action (Kernel W) String := do
  let max := (← get).config.pathMax
  let bytes ← Kernel.readMemory p (UserMemory.copyInStr · path max)
  match String.fromUTF8? bytes.toByteArray with
  | some text => return text
  | none => throw .invalidArgument

def sysFork (S : Services W) (threads : Threads W) (p : ProcessId) (frame : TrapFrame) :
    Action (Kernel W) SyscallEnd := do
  return .value (pidValue (← Kernel.fork S threads p frame))

def sysExecv (S : Services W) (p : ProcessId) (path argv : UserAddr) :
    Action (Kernel W) SyscallEnd := do
  let argMax := (← get).config.argMax
  let args ← Kernel.readMemory p (ArgVector.copyIn · argv argMax)
  let path ← copyInPath p path
  return .exec (← Kernel.exec S p path args)

def sysExit (p : ProcessId) (code : Int32) : Action (Kernel W) SyscallEnd := do
  modify (Kernel.exit p code)
  return .exit

/-- Stores the status word of the child at `status`, unless that is null. -/
def sysWaitpid (S : Services W) (threads : Threads W) (p : ProcessId) (pid : Pid)
    (status : UserAddr) (options : Int32) : Action (Kernel W) SyscallEnd := do
  match ← Kernel.wait S threads p pid options with
  | .blocked => return .blocked
  | .reaped code child =>
    if status.isNull then
      return .value (pidValue child)
    else
      Kernel.onMemory p (UserMemory.storeWord (encodeExitStatus code) status)
      return .value (pidValue child)

def sysGetpid (p : ProcessId) : Action (Kernel W) SyscallEnd := do
  return .value (pidValue ((← get).process p).pid)

def sysOpen (S : Services W) (p : ProcessId) (path : UserAddr) (flags : UInt32) :
    Action (Kernel W) SyscallEnd := do
  let path ← copyInPath p path
  let fd ← Kernel.onDescriptors p (Descriptors.openPath S path flags)
  return .value (.ofNat fd)

/-- The descriptor of a transfer, which must be open before its buffer is looked at. -/
def transferDescriptor (p : ProcessId) (fd : UInt64) (buffer : UserAddr) :
    Action (Kernel W) Nat := do
  let fd ← Action.ofExcept (descriptor fd)
  let _ ← Kernel.onDescriptors p (Descriptors.lookup fd)
  if buffer.isNull then
    throw .badAddress
  else
    return fd

def sysRead (S : Services W) (p : ProcessId) (fd : UInt64) (buffer : UserAddr) (len : UInt64) :
    Action (Kernel W) SyscallEnd := do
  let fd ← transferDescriptor p fd buffer
  let bytes ← Kernel.onDescriptors p (Descriptors.read S fd (min len.toNat maxTransfer))
  Kernel.onMemory p (UserMemory.store bytes buffer)
  return .value (.ofNat bytes.length)

def sysWrite (S : Services W) (p : ProcessId) (fd : UInt64) (buffer : UserAddr) (len : UInt64) :
    Action (Kernel W) SyscallEnd := do
  let fd ← transferDescriptor p fd buffer
  let bytes ← Kernel.readMemory p (UserMemory.copyIn · buffer (min len.toNat maxTransfer))
  let count ← Kernel.onDescriptors p (Descriptors.write S fd bytes.toList)
  return .value count.toInt64

def sysLseek (S : Services W) (p : ProcessId) (fd : UInt64) (pos : Int64) (whence : Int32) :
    Action (Kernel W) SyscallEnd := do
  let fd ← Action.ofExcept (descriptor fd)
  let offset ← Kernel.onDescriptors p (Descriptors.seek S fd pos whence)
  return .value offset.toInt64

def sysClose (S : Services W) (p : ProcessId) (fd : UInt64) : Action (Kernel W) SyscallEnd := do
  let fd ← Action.ofExcept (descriptor fd)
  Kernel.onDescriptors p (Descriptors.close S fd)
  return .value 0

def sysDup2 (S : Services W) (p : ProcessId) (old new : UInt64) :
    Action (Kernel W) SyscallEnd := do
  let old ← Action.ofExcept (descriptor old)
  let new ← Action.ofExcept (descriptor new)
  let fd ← Kernel.onDescriptors p (Descriptors.duplicate S old new)
  return .value (.ofNat fd)

def int32Arg (raw : UInt64) : Int32 := raw.toUInt32.toInt32

def handle (S : Services W) (threads : Threads W) (p : ProcessId) (frame : TrapFrame) :
    Syscall → Action (Kernel W) SyscallEnd
  | fork => sysFork S threads p frame
  | execv => sysExecv S p ⟨frame.arg 0⟩ ⟨frame.arg 1⟩
  | exit => sysExit p (int32Arg (frame.arg 0))
  | waitpid =>
    sysWaitpid S threads p (.ofRaw (frame.arg 0).toInt64) ⟨frame.arg 1⟩ (int32Arg (frame.arg 2))
  | getpid => sysGetpid p
  | openFile => sysOpen S p ⟨frame.arg 0⟩ (frame.arg 1).toUInt32
  | dup2 => sysDup2 S p (frame.arg 0) (frame.arg 1)
  | close => sysClose S p (frame.arg 0)
  | read => sysRead S p (frame.arg 0) ⟨frame.arg 1⟩ (frame.arg 2)
  | write => sysWrite S p (frame.arg 0) ⟨frame.arg 1⟩ (frame.arg 2)
  | lseek => sysLseek S p (frame.arg 0) (frame.arg 1).toInt64 (int32Arg (frame.arg 2))

end Syscall

end UnixCore
