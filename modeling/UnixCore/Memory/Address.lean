import UnixCore.Errno
import UnixCore.Text.Hex

/-! Virtual addresses of a user address space. Address arithmetic never wraps: a sum or difference
outside the 64-bit range is a bad address. -/

namespace UnixCore

structure UserAddr where
  raw : UInt64
  deriving DecidableEq, Repr, Inhabited

def wordSize : Nat := 4

namespace UserAddr

def null : UserAddr := ⟨0⟩

def isNull (a : UserAddr) : Bool := a.raw == 0

def toNat (a : UserAddr) : Nat := a.raw.toNat

def add (a : UserAddr) (bytes : Nat) : Except Errno UserAddr :=
  if a.toNat + bytes < UInt64.size then .ok ⟨.ofNat (a.toNat + bytes)⟩ else .error .badAddress

def sub (a : UserAddr) (bytes : Nat) : Except Errno UserAddr :=
  if bytes ≤ a.toNat then .ok ⟨.ofNat (a.toNat - bytes)⟩ else .error .badAddress

def toWord (a : UserAddr) : Except Errno UInt32 :=
  if a.toNat < UInt32.size then .ok a.raw.toUInt32 else .error .badAddress

def ofWord (w : UInt32) : UserAddr := ⟨w.toUInt64⟩

def isAligned (a : UserAddr) (align : Nat) : Bool := a.toNat % align == 0

/-- The highest multiple of `align` that is not above the address. -/
def alignDown (a : UserAddr) (align : Nat) : UserAddr :=
  ⟨.ofNat (a.toNat / align * align)⟩

def describe (a : UserAddr) : String := "UserAddr(" ++ Text.hex a.toNat ++ ")"

theorem toNat_lt (a : UserAddr) : a.toNat < UInt64.size := a.raw.toNat_lt

theorem eq_of_toNat_eq {a b : UserAddr} (h : a.toNat = b.toNat) : a = b := by
  cases a; cases b
  exact congrArg UserAddr.mk (UInt64.toNat_inj.1 h)

theorem toNat_mk_ofNat {n : Nat} (h : n < UInt64.size) : toNat ⟨.ofNat n⟩ = n := by
  simp only [toNat, UInt64.toNat_ofNat']
  exact Nat.mod_eq_of_lt h

theorem isNull_iff {a : UserAddr} : a.isNull = true ↔ a.toNat = 0 := by
  simp [isNull, toNat, ← UInt64.toNat_inj]

theorem add_eq_ok {a b : UserAddr} {n : Nat} : a.add n = .ok b ↔ b.toNat = a.toNat + n := by
  unfold add
  split
  case isTrue h =>
    rw [Except.ok.injEq]
    constructor
    · rintro rfl
      exact toNat_mk_ofNat h
    · intro hb
      exact eq_of_toNat_eq (by rw [hb, toNat_mk_ofNat h])
  case isFalse h =>
    have := b.toNat_lt
    simp only [reduceCtorEq, false_iff]
    omega

theorem exists_add {a : UserAddr} {n : Nat} (h : a.toNat + n < UInt64.size) :
    ∃ b, a.add n = .ok b := ⟨_, if_pos h⟩

theorem add_eq_error {a : UserAddr} {n : Nat} {e : Errno} :
    a.add n = .error e ↔ e = .badAddress ∧ UInt64.size ≤ a.toNat + n := by
  unfold add
  split
  case isTrue h => simp; omega
  case isFalse h => simp [eq_comm]; omega

theorem sub_eq_ok {a b : UserAddr} {n : Nat} : a.sub n = .ok b ↔ b.toNat + n = a.toNat := by
  have ha := a.toNat_lt
  unfold sub
  split
  case isTrue h =>
    rw [Except.ok.injEq]
    constructor
    · rintro rfl
      rw [toNat_mk_ofNat (by omega)]
      omega
    · intro hb
      exact eq_of_toNat_eq (by rw [toNat_mk_ofNat (by omega)]; omega)
  case isFalse h =>
    simp only [reduceCtorEq, false_iff]
    omega

theorem toWord_eq_ok {a : UserAddr} {w : UInt32} : a.toWord = .ok w ↔ w.toNat = a.toNat := by
  have hw : w.toNat < UInt32.size := w.toNat_lt
  unfold toWord
  split
  case isTrue h =>
    rw [Except.ok.injEq, ← UInt32.toNat_inj, UInt64.toNat_toUInt32]
    change a.toNat % UInt32.size = w.toNat ↔ _
    rw [Nat.mod_eq_of_lt h]
    exact eq_comm
  case isFalse h =>
    simp only [reduceCtorEq, false_iff]
    omega

theorem toWord_eq_error {a : UserAddr} {e : Errno} :
    a.toWord = .error e ↔ e = .badAddress ∧ UInt32.size ≤ a.toNat := by
  unfold toWord
  split
  case isTrue h => simp; omega
  case isFalse h => simp [eq_comm]; omega

theorem toNat_alignDown (a : UserAddr) (align : Nat) :
    (a.alignDown align).toNat = a.toNat / align * align :=
  toNat_mk_ofNat (Nat.lt_of_le_of_lt (Nat.div_mul_le_self _ _) a.toNat_lt)

theorem toNat_ofWord (w : UInt32) : (ofWord w).toNat = w.toNat := by
  simp [ofWord, toNat]

theorem isNull_ofWord {w : UInt32} : (ofWord w).isNull = true ↔ w = 0 := by
  rw [isNull_iff, toNat_ofWord, ← UInt32.toNat_inj]
  rfl

end UserAddr

end UnixCore
