import UnixCore.File.Flags
import UnixCore.File.Vnode

/-! An open file: a vnode, the access its open asked for, and a cursor that all descriptors of the
file share. -/

namespace UnixCore

structure OpenFile where
  vnode : Vnode
  mode : AccessMode
  append : Bool
  offset : UInt64
  deriving DecidableEq, Repr, Inhabited

namespace OpenFile

/-- The cursor moved on by `count`, or at the end of the 64-bit range. -/
def advance (f : OpenFile) (count : Nat) : OpenFile :=
  { f with offset := .ofNat (min (f.offset.toNat + count) (UInt64.size - 1)) }

/-- Signed 64-bit offsets lie below this bound. -/
def seekLimit : Nat := 0x8000000000000000

/-- The cursor `pos` away from `base`. Neither `base` nor the result may be negative or reach
`seekLimit`. -/
def seekTarget (base : UInt64) (pos : Int64) : Except Errno UInt64 :=
  let target : Int := base.toNat + pos.toInt
  if base.toNat < seekLimit ∧ 0 ≤ target ∧ target < seekLimit then
    .ok (.ofNat target.toNat)
  else
    .error .invalidArgument

def describe (f : OpenFile) : String :=
  "OpenFile \x7b mode: " ++ f.mode.name ++ ", append: " ++ toString f.append ++ ", offset: " ++
    toString f.offset.toNat ++ ", .. \x7d"

end OpenFile

end UnixCore
