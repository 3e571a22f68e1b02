/-! Process ids. -/

namespace UnixCore

abbrev Pid := UInt32

namespace Pid

/-- The id that no process ever has. -/
def none : Pid := 0

def lowest : Pid := 2

def highest : Pid := 32767

/-- The id that a system call argument names. A value that is no id at all names none. -/
def ofRaw (raw : Int64) : Pid :=
  if 0 ≤ raw.toInt ∧ raw.toInt < UInt32.size then .ofNat raw.toInt.toNat else none

end Pid

end UnixCore
