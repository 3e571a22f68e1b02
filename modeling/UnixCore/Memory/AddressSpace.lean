import UnixCore.Memory.Mapping

/-! The address space of a process. -/

namespace UnixCore

/-- An address space: its memory, and the number of the account that it is charged to while it
lives. Whoever makes address spaces gives the number its meaning. -/
structure AddressSpace where
  memory : Mapping
  account : Nat := 0
  deriving DecidableEq, Inhabited

instance : UserMemory AddressSpace where
  copyIn s src count := UserMemory.copyIn s.memory src count
  copyOut s bytes dst := do
    return { s with memory := ← UserMemory.copyOut s.memory bytes dst }

end UnixCore
