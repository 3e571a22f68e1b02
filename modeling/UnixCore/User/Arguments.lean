import UnixCore.User.Error

/-! The pointer array that hands arguments to a new image: 32-bit slots, ended by a null pointer. -/

namespace UnixCore.User

def maxExecArgs : Nat := 64

/-- A pointer array with room for the arguments and the null pointer. -/
abbrev ArgSlots := Vector UInt32 (maxExecArgs + 1)

/-- A string in the memory of a program, which ends before its first zero byte. -/
structure CString where
  address : UInt64
  bytes : List UInt8
  deriving DecidableEq, Repr, Inhabited

/-- Stores addresses from slot `index` on, up to the first that does not fit into a slot. -/
def storeAddresses (index : Nat) (slots : ArgSlots) :
    (args : List CString) → Except CallError Unit × ArgSlots
  | [] => (.ok (), slots)
  | arg :: args =>
    if arg.address.toNat < UInt32.size then
      storeAddresses (index + 1) (slots.setIfInBounds index arg.address.toUInt32) args
    else
      (.error .badAddress, slots)

/-- Fills the pointer array with the addresses of the arguments. Slots behind the null pointer keep
what they held. -/
def buildArgv (args : List CString) (slots : ArgSlots) : Except CallError Unit × ArgSlots :=
  if maxExecArgs < args.length then
    (.error .argumentListTooBig, slots)
  else
    match storeAddresses 0 slots args with
    | (.ok (), slots) => (.ok (), slots.setIfInBounds args.length 0)
    | (.error e, slots) => (.error e, slots)

def argvEntry (slots : List UInt32) (index : Nat) : UInt64 := (slots.getD index 0).toUInt64

end UnixCore.User
