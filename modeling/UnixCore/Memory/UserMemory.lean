import UnixCore.Action
import UnixCore.Memory.Address

/-! Copies between the kernel and user memory: blocks of bytes, little-endian words, and strings
that end at the first zero byte. -/

namespace UnixCore

/-- User memory that blocks of bytes can be copied from and to. A block that is not mapped as a
whole fails with `badAddress`. -/
class UserMemory (M : Type) where
  copyIn : M → UserAddr → (count : Nat) → Except Errno (Vector UInt8 count)
  copyOut : M → List UInt8 → UserAddr → Except Errno M

/-- The little-endian value of four bytes. -/
def wordOfBytes (v : Vector UInt8 4) : UInt32 :=
  .ofNat (v[0].toNat + 0x100 * v[1].toNat + 0x10000 * v[2].toNat + 0x1000000 * v[3].toNat)

def wordBytes (w : UInt32) : List UInt8 :=
  [.ofNat w.toNat, .ofNat (w.toNat / 0x100), .ofNat (w.toNat / 0x10000),
    .ofNat (w.toNat / 0x1000000)]

namespace UserMemory

variable {M : Type} [UserMemory M]

def copyInWord (m : M) (src : UserAddr) : Except Errno UInt32 := do
  return wordOfBytes (← copyIn m src 4)

/-- Copies bytes up to a zero byte, `left` at most, behind the bytes already `got`. -/
def copyInStrFrom (m : M) (src : UserAddr) (got : Array UInt8) :
    (left : Nat) → Except Errno (List UInt8)
  | 0 => .error .nameTooLong
  | left + 1 => do
    let byte ← copyIn m (← src.add got.size) 1
    if byte[0] = 0 then
      return got.toList
    else
      copyInStrFrom m src (got.push byte[0]) left

/-- The bytes before the first zero byte, which must be among the first `max`. -/
def copyInStr (m : M) (src : UserAddr) (max : Nat) : Except Errno (List UInt8) :=
  if src.isNull then .error .badAddress else copyInStrFrom m src #[] max

def store (bytes : List UInt8) (dst : UserAddr) : Action M Unit := fun m =>
  match copyOut m bytes dst with
  | .ok m' => .ok () m'
  | .error e => .error e m

def storeWord (w : UInt32) (dst : UserAddr) : Action M Unit :=
  store (wordBytes w) dst

end UserMemory

theorem length_wordBytes (w : UInt32) : (wordBytes w).length = 4 := rfl

theorem wordOfBytes_wordBytes (w : UInt32) :
    wordOfBytes ⟨(wordBytes w).toArray, by simp [length_wordBytes]⟩ = w := by
  have := w.toNat_lt
  apply UInt32.toNat_inj.1
  simp [wordOfBytes, wordBytes]
  omega

end UnixCore
