import UnixCore.Proofs.Sharing.Files
import UnixCore.Proofs.Syscall.Turns

/-! What the parts of a process's calls do to the other processes. Each part leaves the records and
the registration of the others alone, but for the process that it takes away or waits for, and the
files and directories of the others with them. -/

namespace UnixCore

namespace Kernel

variable {W : Type} {S : Services W} {k k' k'' : Kernel W} {p q child : ProcessId} {pid : Pid}
  {except except' : ProcessId → Prop} {moved moved' : FileId → Prop}

/-- A process has a file in a slot. -/
def Holds (k : Kernel W) (p : ProcessId) (id : FileId) : Prop :=
  ∃ fd, (k.process p).descriptors.get? fd = some id

def nobody (_ : ProcessId) : Prop := False

/-- A process that is taken away, and whoever is registered under its id. -/
def TakenAway (k : Kernel W) (pid : Pid) (child q : ProcessId) : Prop :=
  q = child ∨ k.table.get? pid = some q

/-- The record and the registration of a process are the same. -/
structure Same (q : ProcessId) (k k' : Kernel W) : Prop where
  process : k'.process q = k.process q
  registered : ∀ pid, k'.table.get? pid = some q ↔ k.table.get? pid = some q

/-- Between two kernels only `p` and the exceptions were changed. What the others have of the files
and directories is still there and is the same, and of all cursors only those of files that `p` had
open were moved. -/
structure Apart (p : ProcessId) (except : ProcessId → Prop) (k k' : Kernel W) : Prop where
  size_le : k.records.size ≤ k'.records.size
  others : ∀ q < k.records.size, q ≠ p → ¬ except q → Same q k k'
  files : ∀ q < k.records.size, q ≠ p → ¬ except q → ∀ id, k.Holds q id →
    ∃ file file', k.shared.files.get? id = some file ∧ k'.shared.files.get? id = some file' ∧
      file'.vnode = file.vnode ∧ file'.mode = file.mode ∧ file'.append = file.append
  directories : ∀ q < k.records.size, q ≠ p → ¬ except q → ∀ id,
    (k.process q).directory = some id → ∃ vnode,
      k.shared.directories.get? id = some vnode ∧ k'.shared.directories.get? id = some vnode
  cursors : ∀ id file file', k.shared.files.get? id = some file →
    k'.shared.files.get? id = some file' → file'.offset ≠ file.offset → k.Holds p id

namespace Same

theorem refl (q : ProcessId) (k : Kernel W) : Same q k k := ⟨rfl, fun _ => .rfl⟩

theorem trans (h : Same q k k') (h' : Same q k' k'') : Same q k k'' :=
  ⟨h'.process.trans h.process, fun pid => (h'.registered pid).trans (h.registered pid)⟩

theorem of_table (hprocess : k'.process q = k.process q) (htable : k'.table = k.table) :
    Same q k k' :=
  ⟨hprocess, fun _ => by rw [htable]⟩

theorem within (h : Within p k k') (hq : q ≠ p) : Same q k k' := .of_table (h.others q hq) h.table

theorem made {parent : Option Pid} {n : Nat} (h : Made pid parent n k k')
    (hq : q < k.records.size) : Same q k k' := by
  refine ⟨h.others q hq, fun i => ?_⟩
  rw [h.born.table]
  split
  case isTrue heq =>
    rw [heq, h.born.free]
    exact ⟨fun hnew => (Nat.ne_of_lt hq (Option.some.inj hnew).symm).elim, nofun⟩
  case isFalse => exact .rfl

theorem givenUp (h : GivenUp S k k') (hq : q < k.records.size) : Same q k k' := by
  refine ⟨?_, fun i => by rw [h.stillborn.table]⟩
  obtain ⟨pid, k₁, hmade, rfl⟩ := h
  rw [process_discard_ne S (Nat.ne_of_lt hq)]
  exact hmade.others q hq

theorem reap (h : ¬ k.TakenAway pid child q) : Same q k (reap S child (k.unregister pid)) := by
  obtain ⟨hne, hpid⟩ := not_or.1 h
  refine ⟨process_reap_ne S hne, fun i => ?_⟩
  rw [table_reap, unregister, ProcessTable.get?_remove]
  split
  case isTrue heq =>
    rw [heq]
    exact iff_of_false (Option.some_ne_none q).symm hpid
  case isFalse => exact .rfl

end Same

/-! ### Frames -/

/-- Only `p` and the exceptions are changed, and only some cursors are moved. -/
structure Leaves (p : ProcessId) (except : ProcessId → Prop) (moved : FileId → Prop)
    (k k' : Kernel W) : Prop where
  size_le : k.records.size ≤ k'.records.size
  others : ∀ q < k.records.size, q ≠ p → ¬ except q → Same q k k'
  shared : k.shared.Steady moved k'.shared

namespace Leaves

theorem refl (k : Kernel W) : Leaves p except moved k k :=
  ⟨Nat.le_refl _, fun q _ _ _ => .refl q k, .refl _⟩

theorem trans (h : Leaves p except moved k k') (h' : Leaves p except moved k' k'') :
    Leaves p except moved k k'' := by
  refine ⟨Nat.le_trans h.size_le h'.size_le, fun q hq hne hexcept => ?_, h.shared.trans h'.shared⟩
  exact (h.others q hq hne hexcept).trans
    (h'.others q (Nat.lt_of_lt_of_le hq h.size_le) hne hexcept)

theorem mono (h : Leaves p except moved k k') (hexcept : ∀ q, except q → except' q)
    (hmoved : ∀ id, moved id → moved' id) : Leaves p except' moved' k k' :=
  ⟨h.size_le, fun q hq hne hnot => h.others q hq hne fun hq' => hnot (hexcept q hq'),
    h.shared.mono hmoved⟩

theorem within (h : Within p k k') (hshared : k.shared.Steady moved k'.shared) :
    Leaves p except moved k k' :=
  ⟨Nat.le_of_eq h.size.symm, fun _ _ hne _ => .within h hne, hshared⟩

theorem report (e : Event) : Leaves p except moved k (k.report e) :=
  .within (within_report e) (.of_files_eq rfl rfl)

theorem setMemory (memory : Mapping) : Leaves p except moved k (k.setMemory p memory) :=
  .within (.of_modifyProcess (fun _ => rfl) fun _ => rfl) (.refl _)

theorem putSignal (signal : Semaphore) (hchild : except child) :
    Leaves p except moved k (k.putSignal child signal) := by
  refine ⟨Nat.le_of_eq size_putSignal.symm, fun q _ _ hexcept => ?_, .refl _⟩
  have hne : q ≠ child := fun heq => hexcept (heq ▸ hchild)
  exact .of_table (process_modifyProcess_ne _ hne) rfl

theorem enterWait (hchild : except child) : Leaves p except moved k (k.enterWait child) := by
  unfold Kernel.enterWait
  dsimp only
  split
  · exact (Leaves.report .secondWaiter).trans (.putSignal _ hchild)
  · exact .putSignal _ hchild

theorem reap (hexcept : ∀ q, k.TakenAway pid child q → except q) :
    Leaves p except moved k (reap S child (k.unregister pid)) := by
  refine ⟨Nat.le_of_eq (size_reap (k := k.unregister pid) S).symm, fun q _ _ hnot => ?_, ?_⟩
  · exact .reap fun htaken => hnot (hexcept q htaken)
  · have htouches : Shared.Touches S .nothing k.shared
        (Kernel.reap S child (k.unregister pid)).shared := touches_reap (k := k.unregister pid)
    exact htouches.steady.mono nofun

end Leaves

/-! ### The parts of calls -/

end Kernel

open Kernel

variable {W : Type} {S : Services W} {k k' : Kernel W} {p q child : ProcessId} {pid : Pid}

namespace Operation

variable {op : Operation} {r : Except Errno Unit}

theorem By.holds {id : FileId} (h : By p op) (hmoves : op.Moves k id) : k.Holds p id := by
  cases h <;> cases hmoves
  all_goals exact ⟨_, ‹_›⟩

end Operation

namespace Kernel

section Booked

variable {S : Services W} {k k' : Kernel (W × Ledger)} {except : ProcessId → Prop}
  {past past' : Shared (W × Ledger)} {n n' : Nat}

theorem Booked.exists_file {id : FileId} (h : k.Booked past n 0) (hq : q < k.records.size)
    (hid : k.Holds q id) : ∃ file, k.shared.files.get? id = some file := by
  obtain ⟨fd, hfd⟩ := hid
  refine Option.isSome_iff_exists.1 ((h.mem_openFiles_iff id).1 ?_)
  exact List.mem_dedup.2 (List.mem_flatMap.2
    ⟨_, Array.mem_toList_iff.2 (mem_records hq), DescriptorTable.mem_held_of_get? hfd⟩)

theorem Booked.exists_directory {id : Nat} (h : k.Booked past n 0) (hq : q < k.records.size)
    (hid : (k.process q).directory = some id) :
    ∃ vnode, k.shared.directories.get? id = some vnode := by
  refine Option.isSome_iff_exists.1 ((h.mem_currentDirectories_iff id).1 ?_)
  exact List.mem_dedup.2 (List.mem_filterMap.2 ⟨_, Array.mem_toList_iff.2 (mem_records hq), hid⟩)

theorem DidAndStored.booked (h : DidAndStored S.audited p k k') (hp : p < k.records.size)
    (hbooked : k.Booked past k.records.size 0) : k'.Booked past k.records.size 0 := by
  obtain ⟨k₁, hdid, hstored⟩ := h
  have hfirst : k₁.Booked past k.records.size 0 := by
    rcases hdid with rfl | ⟨op, r, hby, hresult⟩
    · exact hbooked
    · have hvalid : op.Valid k := by
        cases hby <;> exact hp
      have hrun := Operation.booked hbooked hvalid (S := S)
      rwa [Operation.run, hresult] at hrun
  rcases hstored with rfl | ⟨memory, rfl⟩
  · exact hfirst
  · exact hfirst.setMemory memory

end Booked

end Kernel

end UnixCore
