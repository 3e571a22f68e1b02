/-! The status word that a wait stores. -/

namespace UnixCore.User

structure WaitStatus where
  raw : Int32
  deriving DecidableEq, Repr, Inhabited

namespace WaitStatus

def exited (s : WaitStatus) : Bool := s.raw &&& 0x7f == 0

def exitCode (s : WaitStatus) : Option Int32 :=
  if s.exited then some ((s.raw >>> 8) &&& 0xff) else none

end WaitStatus

end UnixCore.User
