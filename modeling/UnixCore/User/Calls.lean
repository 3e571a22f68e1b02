import UnixCore.User.Arguments
import UnixCore.User.Status

/-! The system calls of a user program. A call is described by what its registers hold, with the
memory behind a pointer in place of the pointer; whatever answers the calls is a parameter. -/

namespace UnixCore.User

/-- A trapped system call. Numbers are the full argument registers. -/
inductive Trap
  | fork
  | execv (path : List UInt8) (slots : ArgSlots)
  | exit (code : UInt64)
  | waitpid (pid options : UInt64)
  | getpid
  | openFile (path : List UInt8) (flags : UInt64)
  | dup2 (old new : UInt64)
  | close (fd : UInt64)
  | read (fd len : UInt64)
  | write (fd : UInt64) (bytes : List UInt8)
  | lseek (fd pos whence : UInt64)

def Trap.number : Trap → UInt64
  | fork => 0
  | execv .. => 2
  | exit .. => 3
  | waitpid .. => 4
  | getpid => 5
  | openFile .. => 45
  | dup2 .. => 48
  | close .. => 49
  | read .. => 50
  | write .. => 55
  | lseek .. => 59

/-- The answer to a call: the return register, and what was stored in the memory that the call
offered, be it the buffer of a read or the status word of a wait. -/
structure Reply where
  ret : Int64 := 0
  data : List UInt8 := []
  status : Option UInt32 := none
  deriving Repr, Inhabited

abbrev Machine (σ : Type) := Trap → StateM σ Reply

variable {σ : Type}

def call (m : Machine σ) (t : Trap) : StateM σ CallResult := do
  return decodeReturn (← m t).ret

def signExtended (n : Int32) : UInt64 := n.toInt64.toUInt64

def openFile (m : Machine σ) (path : List UInt8) (flags : UInt32) : StateM σ CallResult :=
  call m (.openFile path flags.toUInt64)

/-- Reads into a buffer. Gives the result and the buffer as the call left it. -/
def read (m : Machine σ) (fd : UInt64) (buffer : List UInt8) :
    StateM σ (CallResult × List UInt8) := do
  let reply ← m (.read fd (.ofNat buffer.length))
  let stored := reply.data.take buffer.length
  return (decodeReturn reply.ret, stored ++ buffer.drop stored.length)

def write (m : Machine σ) (fd : UInt64) (bytes : List UInt8) : StateM σ CallResult :=
  call m (.write fd bytes)

def lseek (m : Machine σ) (fd : UInt64) (pos : Int64) (whence : Int32) : StateM σ CallResult :=
  call m (.lseek fd pos.toUInt64 (signExtended whence))

def close (m : Machine σ) (fd : UInt64) : StateM σ CallResult :=
  call m (.close fd)

def dup2 (m : Machine σ) (old new : UInt64) : StateM σ CallResult :=
  call m (.dup2 old new)

def fork (m : Machine σ) : StateM σ CallResult :=
  call m .fork

/-- The id of the calling process, or 0 should there be none. -/
def getpid (m : Machine σ) : StateM σ UInt64 := do
  match ← call m .getpid with
  | .ok pid => return pid
  | .error _ => return 0

def waitpid (m : Machine σ) (pid : UInt64) (options : UInt32) :
    StateM σ (Except CallError (UInt64 × WaitStatus)) := do
  let reply ← m (.waitpid pid options.toUInt64)
  match decodeReturn reply.ret with
  | .ok child => return .ok (child, ⟨(reply.status.getD 0).toInt32⟩)
  | .error e => return .error e

/-- Replaces the image. A call that returns has failed, also where its value says otherwise. -/
def execv (m : Machine σ) (path : List UInt8) (args : List CString) : StateM σ CallError := do
  match buildArgv args (.replicate _ 0) with
  | (.error e, _) => return e
  | (.ok (), slots) =>
    match ← call m (.execv path slots) with
    | .error e => return e
    | .ok _ => return .unknown

def exit (m : Machine σ) (code : Int32) : StateM σ Unit := do
  let _ ← m (.exit (signExtended code))

end UnixCore.User
