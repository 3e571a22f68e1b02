import UnixCore.Errno

/-! The resource limits of a running kernel. -/

namespace UnixCore

/-- The lowest descriptor that an open may hand out; those below it are the standard streams. -/
def firstUserDescriptor : Nat := 3

/-- The device behind the standard streams of the first process. -/
def consolePath : String := "con:"

structure Config where
  openMax : Nat := 128
  /-- Registered processes, zombies included. -/
  maxProcesses : Nat := 256
  /-- Bytes of all arguments of an exec together, terminators included. -/
  argMax : Nat := 64 * 1024
  /-- Bytes of a path, terminator included. -/
  pathMax : Nat := 1024
  deriving DecidableEq, Repr, Inhabited

/-- Limits that leave no room for one user descriptor, one process, one argument byte or a path
of one byte are refused. -/
def Config.validate (c : Config) : Except Errno Unit :=
  if c.openMax ≤ firstUserDescriptor ∨ c.maxProcesses = 0 ∨ c.argMax = 0 ∨ c.pathMax < 2 then
    .error .invalidArgument
  else
    .ok ()

end UnixCore
