import Mathlib.Algebra.Group.Nat.Defs
import UnixCore.Proofs.Descriptor.Effects
import UnixCore.Proofs.Kernel.Memory
import UnixCore.Proofs.System.Basic
import UnixCore.Ram.Services
import UnixCore.Syscall.Handlers

/-! Reads that fail. Up to the transfer a failing read changes nothing that a process could see. The
bytes are stored last, when the cursor has moved already, so that bytes for which the caller's
memory has no room are lost. -/

namespace UnixCore

namespace Descriptors

variable {W : Type} {S : Services W} {d : Descriptors W}

/-- A transfer in takes place at the cursor and moves it, and one that fails leaves every file as it
was. -/
theorem ensures_read {fd count : Nat} :
    (read S fd count).Ensures d
      (fun bytes d' => d'.table = d.table ∧ ∃ id file w, d.table.get? fd = some id ∧
        d.shared.files.get? id = some file ∧ file.mode.canRead = true ∧
        S.readAt file.vnode file.offset count d.shared.world = .ok bytes w ∧
        d'.shared.files = d.shared.files.modify id (·.advance bytes.length))
      fun _ d' => d'.table = d.table ∧ d'.shared.files = d.shared.files ∧
        ∀ id file bytes w, d.table.get? fd = some id → d.shared.files.get? id = some file →
          file.mode.canRead = true →
          S.readAt file.vnode file.offset count d.shared.world ≠ .ok bytes w := by
  rw [read, Action.ensures_bind, ensures_lookup]
  refine ⟨fun id hid => ?_, fun hnone => ⟨rfl, rfl, fun id _ _ _ hid => ?_⟩⟩
  case refine_2 => cases hnone.symm.trans hid
  rw [Action.ensures_bind, ensures_onShared, Shared.read, Action.ensures_bind, Action.ensures_get]
  cases hfile : d.shared.files.get? id with
  | none =>
    refine ⟨rfl, rfl, fun id' file _ _ hid' hfile' => ?_⟩
    cases hid.symm.trans hid'
    cases hfile.symm.trans hfile'
  | some file =>
    dsimp only
    split
    case isFalse hmode =>
      refine ⟨rfl, rfl, fun id' file' _ _ hid' hfile' hmode' => ?_⟩
      cases hid.symm.trans hid'
      cases hfile.symm.trans hfile'
      exact (hmode hmode').elim
    case isTrue hmode =>
      rw [Action.ensures_bind, Shared.onWorld, Action.ensures_onPart]
      refine Action.ensures_iff.2 ⟨fun bytes w hread => ?_, fun e w hread => ?_⟩
      · simp only [Action.ensures_bind, Action.ensures_modify, Action.ensures_pure, ensures_report]
        exact ⟨trivial, id, file, w, hid, hfile, hmode, hread, rfl⟩
      · refine ⟨rfl, rfl, fun id' file' bytes w' hid' hfile' _ hread' => ?_⟩
        cases hid.symm.trans hid'
        cases hfile.symm.trans hfile'
        cases hread.symm.trans hread'

end Descriptors

namespace Syscall

variable {W : Type} {S : Services W} {k : Kernel W} {p : ProcessId} {fd len : UInt64}
  {buffer : UserAddr}

theorem min_maxTransfer_lt (n : Nat) : min n maxTransfer < 2 ^ 63 :=
  Nat.lt_of_le_of_lt (Nat.min_le_right n maxTransfer) (by decide)

/-- The checks of a transfer change nothing, and they all succeed for the transfer to begin. -/
theorem ensures_transferDescriptor :
    (transferDescriptor p fd buffer).Ensures k
      (fun n k' => k' = k ∧ descriptor fd = .ok n ∧ buffer.isNull = false)
      fun _ k' => k' = k ∧ ∀ n id, descriptor fd = .ok n →
        (k.process p).descriptors.get? n = some id → buffer.isNull = true := by
  have hself : Kernel.modifyProcess p
      ({ · with descriptors := (k.process p).descriptors }) k = k :=
    Kernel.modifyProcess_eq_self rfl
  rw [transferDescriptor, Action.ensures_bind, Action.ensures_ofExcept]
  refine ⟨fun n hn => ?_, fun e he => ⟨rfl, fun n id hn _ => ?_⟩⟩
  · rw [Action.ensures_bind, Kernel.onDescriptors, Action.ensures_onPart,
      Descriptors.ensures_lookup]
    dsimp only
    rw [hself]
    refine ⟨fun id hid => ?_, fun hnone => ⟨rfl, fun n' id hn' hid => ?_⟩⟩
    · split
      case isTrue hnull => exact ⟨rfl, fun _ _ _ _ => hnull⟩
      case isFalse hnull => exact ⟨rfl, hn, Bool.of_not_eq_true hnull⟩
    · cases hn.symm.trans hn'
      cases hnone.symm.trans hid
  · cases he.symm.trans hn

/-- A read that gets `bytes` from the file `id` of a descriptor, for which the caller's memory has
no room at `buffer`. -/
structure Undelivered (S : Services W) (k : Kernel W) (p : ProcessId) (fd : UInt64)
    (buffer : UserAddr) (len : UInt64) (id : FileId) (bytes : List UInt8) : Prop where
  descriptor : ∃ n, descriptor fd = .ok n ∧ (k.process p).descriptors.get? n = some id
  nonnull : buffer.isNull = false
  read : ∃ file w, k.shared.files.get? id = some file ∧ file.mode.canRead = true ∧
    S.readAt file.vnode file.offset (min len.toNat maxTransfer) k.shared.world = .ok bytes w
  unmapped : ∀ space, (k.process p).space = some space →
    ¬ space.memory.Covers buffer bytes.length

/-- A read that fails changes no process record, so no user memory, and no file, so no cursor, but
for one case: if the bytes were read and the caller's memory has no room for them, then the cursor
has moved past them. -/
theorem failed_read_keeps_cursor (S : Services W) (k : Kernel W) (p : ProcessId) (fd : UInt64)
    (buffer : UserAddr) (len : UInt64) :
    (sysRead S p fd buffer len).Ensures k
      (fun _ _ => ∀ id bytes, ¬ Undelivered S k p fd buffer len id bytes)
      fun e k' => k'.records = k.records ∧
        ((∀ id bytes, ¬ Undelivered S k p fd buffer len id bytes) →
          k'.shared.files = k.shared.files) ∧
        ∀ id bytes, Undelivered S k p fd buffer len id bytes → e = .badAddress ∧
          k'.shared.files = k.shared.files.modify id (·.advance bytes.length) := by
  rw [sysRead, Action.ensures_bind]
  refine ensures_transferDescriptor.mono (fun n k₁ h => ?_) fun e k₁ h => ?_
  · obtain ⟨rfl, hn, hnonnull⟩ := h
    rw [Action.ensures_bind, Kernel.onDescriptors, Action.ensures_onPart]
    refine Descriptors.ensures_read.mono (fun bytes d h => ?_) fun e d h => ?_
    · obtain ⟨htable, id, file, w, hid, hfile, hmode, hread, hfiles⟩ := h
      have hself : Kernel.modifyProcess p ({ · with descriptors := d.table }) k₁ = k₁ :=
        Kernel.modifyProcess_eq_self (by rw [htable])
      have hsame {id' bytes'} (hu : Undelivered S k₁ p fd buffer len id' bytes') :
          id' = id ∧ bytes' = bytes := by
        obtain ⟨⟨n', hn', hid'⟩, -, ⟨file', w', hfile', -, hread'⟩, -⟩ := hu
        cases hn.symm.trans hn'
        cases hid.symm.trans hid'
        cases hfile.symm.trans hfile'
        cases hread.symm.trans hread'
        exact ⟨rfl, rfl⟩
      rw [hself, Action.ensures_bind, Kernel.ensures_onMemory_store]
      refine ⟨fun space hspace hcovers id' bytes' hu => ?_, fun hunmapped => ⟨rfl, ?_, ?_⟩⟩
      · obtain ⟨rfl, rfl⟩ := hsame hu
        exact hu.unmapped space hspace hcovers
      · intro hnone
        exact (hnone id bytes
          ⟨⟨n, hn, hid⟩, hnonnull, ⟨file, w, hfile, hmode, hread⟩, hunmapped⟩).elim
      · intro id' bytes' hu
        obtain ⟨rfl, rfl⟩ := hsame hu
        exact ⟨rfl, hfiles⟩
    · obtain ⟨htable, hfiles, hnone⟩ := h
      have hself : Kernel.modifyProcess p ({ · with descriptors := d.table }) k₁ = k₁ :=
        Kernel.modifyProcess_eq_self (by rw [htable])
      rw [hself]
      refine ⟨rfl, fun _ => hfiles, fun id bytes hu => ?_⟩
      obtain ⟨⟨n', hn', hid'⟩, -, ⟨file', w', hfile', hmode', hread'⟩, -⟩ := hu
      cases hn.symm.trans hn'
      exact (hnone _ _ _ _ hid' hfile' hmode' hread').elim
  · obtain ⟨rfl, hnull⟩ := h
    refine ⟨rfl, fun _ => rfl, fun id bytes hu => ?_⟩
    obtain ⟨⟨n, hn, hid⟩, hnonnull, -⟩ := hu
    cases hnonnull.symm.trans (hnull n id hn hid)

/-- The first process has opened a program file for reading as descriptor 3. Its memory begins at
address 0x1000. -/
def openedProgram : Kernel Ram :=
  let started := (Operation.spawnInitial "bin/init" ["init"]).run Ram.services
    (System.empty { openMax := 4 } smallWorld).kernel
  (Operation.descriptors 0 (.openPath "bin/prog" 0)).run Ram.services started

theorem run_openedProgram : Run Ram.services (System.empty { openMax := 4 } smallWorld)
    [.worked, .worked] { kernel := openedProgram } := by
  have hstart : Run Ram.services (System.empty { openMax := 4 } smallWorld) [] _ := .start
  have hstarted := hstart.step
    (@Step.operate _ _ _ (.spawnInitial "bin/init" ["init"]) trivial)
  exact hstarted.step
    (@Step.operate _ _ _ (.descriptors 0 (.openPath "bin/prog" 0)) (show 0 < _ by decide +kernel))

/-- A read to an address that is not mapped fails and moves the cursor all the same, and a second
read, to a good address, gets other bytes than it would have got before. -/
theorem unmapped_read_moves_cursor :
    ∃ labels s, Run Ram.services (System.empty { openMax := 4 } smallWorld) labels s ∧
      ∃ k', sysRead Ram.services 0 3 ⟨0x10⟩ 4 s.kernel = .error .badAddress k' ∧
        (s.kernel.shared.files.get? 3).map (·.offset) = some 0 ∧
        (k'.shared.files.get? 3).map (·.offset) = some 4 ∧
        ((Kernel.onDescriptors 0 (Descriptors.read Ram.services 3 4)).result s.kernel).1.toOption =
          some Ram.imageMagic ∧
        ((Kernel.onDescriptors 0 (Descriptors.read Ram.services 3 4)).result k').1.toOption =
          some "text".toUTF8.toList :=
  ⟨_, _, run_openedProgram, _, Action.eq_error_of_result (by decide +kernel), by decide +kernel,
    by decide +kernel, by decide +kernel, by decide +kernel⟩

end Syscall

end UnixCore
