import UnixCore.Proofs.Kernel.Records
import UnixCore.Proofs.Memory.Bytes

/-! Stores into the memory of a process: all bytes are stored if the memory covers them, and none
otherwise. -/

namespace UnixCore

namespace AddressSpace

/-- An address space with `bytes` stored from `dst` on. -/
def stored (space : AddressSpace) (bytes : List UInt8) (dst : UserAddr) : AddressSpace :=
  { space with
    memory := { space.memory with
      bytes := Mapping.overwrite space.memory.bytes (dst.toNat - space.memory.base.toNat) bytes } }

theorem ensures_store {space : AddressSpace} {bytes : List UInt8} {dst : UserAddr}
    {ok : Unit → AddressSpace → Prop} {error : Errno → AddressSpace → Prop} :
    (UserMemory.store bytes dst : Action AddressSpace Unit).Ensures space ok error ↔
      (space.memory.Covers dst bytes.length → ok () (space.stored bytes dst)) ∧
        (¬ space.memory.Covers dst bytes.length → error .badAddress space) := by
  by_cases h : space.memory.Covers dst bytes.length
  · have hout : UserMemory.copyOut space bytes dst = .ok (space.stored bytes dst) := by
      simp only [UserMemory.copyOut, if_pos h]
      rfl
    simp [Action.Ensures, UserMemory.store, hout, h]
  · have hout : UserMemory.copyOut space bytes dst = .error .badAddress := by
      simp only [UserMemory.copyOut, if_neg h]
      rfl
    simp [Action.Ensures, UserMemory.store, hout, h]

theorem byte?_stored {space : AddressSpace} {b : List UInt8} {dst : UserAddr}
    (h : space.memory.Covers dst b.length) :
    Bytewise.BlockAt (space.stored b dst) dst.toNat b ∧
      ∀ a, a < dst.toNat ∨ dst.toNat + b.length ≤ a →
        (space.stored b dst).memory.byte? a = space.memory.byte? a :=
  (ensures_store.1 Bytewise.ensures_store).1 h

end AddressSpace

namespace Kernel

variable {W : Type} {k : Kernel W} {p : ProcessId} {bytes : List UInt8} {dst : UserAddr}

theorem ensures_onMemory_store {ok : Unit → Kernel W → Prop} {error : Errno → Kernel W → Prop} :
    (onMemory p (UserMemory.store bytes dst)).Ensures k ok error ↔
      (∀ space, (k.process p).space = some space → space.memory.Covers dst bytes.length →
          ok () (modifyProcess p ({ · with space := some (space.stored bytes dst) }) k)) ∧
        ((∀ space, (k.process p).space = some space →
          ¬ space.memory.Covers dst bytes.length) → error .badAddress k) := by
  cases hspace : (k.process p).space with
  | none =>
    have hrun : onMemory p (UserMemory.store bytes dst) k =
        (throw .badAddress : Action (Kernel W) Unit) k := by
      unfold onMemory onSpace
      rw [hspace]
      rfl
    rw [Action.ensures_congr hrun]
    simp
  | some space =>
    have hself : modifyProcess p ({ · with space := some space }) k = k := by
      apply modifyProcess_eq_self
      rw [← hspace]
    rw [onMemory, ensures_onSpace hspace, Action.ensures_onPart, AddressSpace.ensures_store, hself]
    simp only [Option.some.injEq, forall_eq']
    exact Iff.rfl

end Kernel

end UnixCore
