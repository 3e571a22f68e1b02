import UnixCore.Memory.UserMemory

/-! User memory that is one contiguous mapping. -/

namespace UnixCore

structure Mapping where
  base : UInt64
  bytes : Array UInt8
  deriving DecidableEq, Inhabited

namespace Mapping

def filled (base : UInt64) (size : Nat) (fill : UInt8) : Mapping :=
  ⟨base, .replicate size fill⟩

/-- A block of `count` bytes at `addr` lies inside the mapping. An empty block may lie at its
end. -/
def Covers (m : Mapping) (addr : UserAddr) (count : Nat) : Prop :=
  m.base.toNat ≤ addr.toNat ∧ addr.toNat - m.base.toNat + count ≤ m.bytes.size

instance (m : Mapping) (addr : UserAddr) (count : Nat) : Decidable (m.Covers addr count) :=
  inferInstanceAs (Decidable (_ ∧ _))

/-- The bytes from index `start` on replaced by `new`. -/
def overwrite (bytes : Array UInt8) (start : Nat) : (new : List UInt8) → Array UInt8
  | [] => bytes
  | b :: new => overwrite (bytes.setIfInBounds start b) (start + 1) new

instance : UserMemory Mapping where
  copyIn m src count :=
    let start := src.toNat - m.base.toNat
    if h : m.Covers src count then
      .ok ⟨m.bytes.extract start (start + count), by
        have := h.2
        simp only [Array.size_extract]
        omega⟩
    else
      .error .badAddress
  copyOut m bytes dst :=
    if m.Covers dst bytes.length then
      .ok { m with bytes := overwrite m.bytes (dst.toNat - m.base.toNat) bytes }
    else
      .error .badAddress

@[simp] theorem size_overwrite (bytes : Array UInt8) (start : Nat) (new : List UInt8) :
    (overwrite bytes start new).size = bytes.size := by
  induction new generalizing bytes start with
  | nil => rfl
  | cons b new ih => simp [overwrite, ih]

theorem getElem?_overwrite (bytes : Array UInt8) (start : Nat) (new : List UInt8) (i : Nat)
    (h : start + new.length ≤ bytes.size) :
    (overwrite bytes start new)[i]? =
      if start ≤ i ∧ i < start + new.length then new[i - start]? else bytes[i]? := by
  induction new generalizing bytes start with
  | nil => simp [overwrite, show ¬ (start ≤ i ∧ i < start) by omega]
  | cons b new ih =>
    simp only [List.length_cons] at h
    rw [overwrite, ih _ _ (by simp; omega), Array.getElem?_setIfInBounds]
    simp only [List.length_cons]
    rcases Nat.lt_trichotomy i start with hi | rfl | hi
    · simp [show ¬ (start + 1 ≤ i) by omega, show ¬ start ≤ i by omega, show start ≠ i by omega]
    · simp [show i < bytes.size by omega, show i < i + (new.length + 1) by omega,
        show ¬ i + 1 ≤ i by omega]
    · by_cases hn : i < start + 1 + new.length
      · obtain ⟨k, rfl⟩ : ∃ k, i = start + 1 + k := ⟨i - (start + 1), by omega⟩
        simp [show start + 1 + k < start + 1 + new.length by omega,
          show start ≤ start + 1 + k by omega,
          show start + 1 + k < start + (new.length + 1) by omega,
          show start + 1 + k - start = k + 1 by omega]
      · simp [hn, show ¬ i < start + (new.length + 1) by omega, show start ≠ i by omega]

end Mapping

end UnixCore
