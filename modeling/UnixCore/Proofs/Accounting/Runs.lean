import Mathlib.Data.List.Dedup
import UnixCore.Proofs.Accounting.Lifecycle
import UnixCore.Ram.Services

/-! Reference accounting over whole runs: in every system that can be reached, whatever failed on
the way, the share counts of the open files are the numbers of the slots that hold them, and what
the services handed out and have not got back is what the process records hold. -/

namespace UnixCore

variable {W : Type} {S : Services W}

namespace Kernel

/-- What the services handed out and took back so far. -/
def ledger (k : Kernel (W × Ledger)) : Ledger := k.shared.world.2

/-- How many slots, in the tables of all records, hold a file. -/
def slotsHolding (k : Kernel W) (id : FileId) : Nat :=
  (k.records.toList.map fun p => p.descriptors.slots.count (some id)).sum

/-- The files in slots, each once. -/
def openFiles (k : Kernel W) : List FileId :=
  (k.records.toList.flatMap fun p => p.descriptors.held).dedup

def currentDirectories (k : Kernel W) : List Nat :=
  (k.records.toList.filterMap (·.directory)).dedup

/-- The files in slots that are on a resource. -/
def openFilesOn (k : Kernel W) (resource : Nat) : List FileId :=
  k.openFiles.filter fun id =>
    (k.shared.files.get? id).any fun file => resource = file.vnode.resource

def currentDirectoriesOn (k : Kernel W) (resource : Nat) : List Nat :=
  k.currentDirectories.filter fun id =>
    (k.shared.directories.get? id).any fun vnode => resource = vnode.resource

/-- Every reference is accounted for. -/
structure Accounted (k : Kernel (W × Ledger)) : Prop where
  /-- The share count of a file is the number of the slots that hold it. -/
  shares : ∀ id, k.shared.files.holders id = k.slotsHolding id
  /-- A file is there as long as a slot holds it. -/
  files : ∀ id, (k.shared.files.get? id).isSome ↔ 0 < k.slotsHolding id
  /-- The vnodes that were handed out and are not released are those of the files in slots and of
  the current directories. -/
  vnodes : ∀ resource, k.ledger.count (.handed resource) =
    k.ledger.count (.released resource) +
      ((k.openFilesOn resource).length + (k.currentDirectoriesOn resource).length)
  /-- The address spaces that were made and are not destroyed are those in records. -/
  spaces : k.ledger.count .made =
    k.ledger.count .destroyed + k.records.toList.countP fun p => p.space.isSome

/-- The vnodes on a resource that a kernel has and another has not: those of the files that are in
no slot of the other, and those of the directories in which no process of the other is. -/
def vnodesBeyond (k other : Kernel W) (resource : Nat) : Nat :=
  (k.openFilesOn resource).countP (· ∉ other.openFiles) +
    (k.currentDirectoriesOn resource).countP (· ∉ other.currentDirectories)

/-- What is released between two kernels are the vnodes whose last slot or process was lost, and
those that were handed out in between and did not get a slot or a process. -/
def Released (k k' : Kernel (W × Ledger)) : Prop :=
  ∃ entries : Ledger, k'.ledger = entries ++ k.ledger ∧ ∀ resource,
    entries.count (.released resource) + k'.vnodesBeyond k resource =
      k.vnodesBeyond k' resource + entries.count (.handed resource)

end Kernel

/-! ### What the books say -/

namespace Process

variable (p : Process)

theorem files_holdings : p.holdings.files = ↑p.descriptors.held := by
  have hdirectory : (Holdings.ofDirectory? p.directory).files = 0 := by cases p.directory <;> rfl
  have hspace : (Holdings.ofSpace? p.space).files = 0 := by cases p.space <;> rfl
  rw [holdings, Holdings.files_add, Holdings.files_add, hdirectory, hspace, add_zero, add_zero]
  rfl

theorem directories_holdings : p.holdings.directories = ↑p.directory.toList := by
  have hspace : (Holdings.ofSpace? p.space).directories = 0 := by cases p.space <;> rfl
  rw [holdings, Holdings.directories_add, Holdings.directories_add, hspace, add_zero]
  cases p.directory <;> rfl

theorem spaces_holdings : p.holdings.spaces = if p.space.isSome then 1 else 0 := by
  have hdirectory : (Holdings.ofDirectory? p.directory).spaces = 0 := by cases p.directory <;> rfl
  rw [holdings, Holdings.spaces_add, Holdings.spaces_add, hdirectory]
  cases p.space <;> rfl

theorem vnodes_holdings : p.holdings.vnodes = 0 := by
  have hdirectory : (Holdings.ofDirectory? p.directory).vnodes = 0 := by cases p.directory <;> rfl
  rw [holdings, Holdings.vnodes_add, Holdings.vnodes_add, hdirectory]
  cases p.space <;> rfl

end Process

namespace Kernel

section Holdings

variable (k : Kernel W)

theorem files_holdings :
    k.holdings.files = ↑(k.records.toList.flatMap fun p => p.descriptors.held) := by
  rw [holdings]
  induction k.records.toList with
  | nil => rfl
  | cons p records ih =>
    rw [List.map_cons, List.sum_cons, Holdings.files_add, ih, Process.files_holdings,
      List.flatMap_cons, Multiset.coe_add]

theorem directories_holdings :
    k.holdings.directories = ↑(k.records.toList.filterMap (·.directory)) := by
  rw [holdings]
  induction k.records.toList with
  | nil => rfl
  | cons p records ih =>
    rw [List.map_cons, List.sum_cons, Holdings.directories_add, ih, Process.directories_holdings,
      Multiset.coe_add, List.filterMap_cons]
    cases p.directory <;> rfl

theorem spaces_holdings : k.holdings.spaces = k.records.toList.countP fun p => p.space.isSome := by
  rw [holdings]
  induction k.records.toList with
  | nil => rfl
  | cons p records ih =>
    rw [List.map_cons, List.sum_cons, Holdings.spaces_add, ih, Process.spaces_holdings,
      List.countP_cons, add_comm]

theorem vnodes_holdings : k.holdings.vnodes = 0 := by
  rw [holdings]
  induction k.records.toList with
  | nil => rfl
  | cons p records ih =>
    rw [List.map_cons, List.sum_cons, Holdings.vnodes_add, ih, Process.vnodes_holdings, add_zero]

theorem count_files_holdings (id : FileId) : k.holdings.files.count id = k.slotsHolding id := by
  rw [files_holdings, Multiset.coe_count, List.count_flatMap, slotsHolding]
  refine congrArg List.sum (List.map_congr_left fun p _ => ?_)
  rw [Function.comp_apply, DescriptorTable.held, List.count_filterMap, ← Array.count_toList]
  rfl

theorem mem_openFiles {id : FileId} : id ∈ k.openFiles ↔ id ∈ k.holdings.files := by
  rw [openFiles, List.mem_dedup, files_holdings, Multiset.mem_coe]

theorem mem_currentDirectories {id : Nat} :
    id ∈ k.currentDirectories ↔ id ∈ k.holdings.directories := by
  rw [currentDirectories, List.mem_dedup, directories_holdings, Multiset.mem_coe]

end Holdings

namespace Booked

variable {past : Shared (W × Ledger)} {n : Nat} {k k' : Kernel (W × Ledger)}

theorem mem_openFiles_iff (h : Booked past n 0 k) (id : FileId) :
    id ∈ k.openFiles ↔ (k.shared.files.get? id).isSome := by
  have hb := h.balanced
  rw [add_zero] at hb
  rw [mem_openFiles, hb.files.isSome_get?_iff]

theorem mem_currentDirectories_iff (h : Booked past n 0 k) (id : Nat) :
    id ∈ k.currentDirectories ↔ (k.shared.directories.get? id).isSome := by
  have hb := h.balanced
  rw [add_zero] at hb
  rw [mem_currentDirectories, hb.directories.isSome_get?_iff]

theorem accounted (h : Booked past n 0 k) : k.Accounted := by
  have hb := h.balanced
  rw [add_zero] at hb
  refine ⟨fun id => ?_, fun id => ?_, fun resource => ?_, ?_⟩
  · rw [hb.files.holders_eq, count_files_holdings]
  · rw [hb.files.isSome_get?_iff, ← Multiset.count_pos, count_files_holdings]
  · have hfiles : (k.openFilesOn resource).length = _ :=
      List.countP_eq_length_filter.symm.trans
        (Pool.countP_eq_countValues (List.nodup_dedup _) h.mem_openFiles_iff)
    have hdirectories : (k.currentDirectoriesOn resource).length = _ :=
      List.countP_eq_length_filter.symm.trans
        (Pool.countP_eq_countValues (List.nodup_dedup _) h.mem_currentDirectories_iff)
    have hvnodes := hb.vnodes resource
    rw [vnodes_holdings, Multiset.count_zero, add_zero, add_assoc, ← hfiles,
      ← hdirectories] at hvnodes
    exact hvnodes
  · rw [← spaces_holdings]
    exact hb.spaces

theorem anchor (h : Booked past n 0 k) : Booked k.shared k.records.size 0 k :=
  ⟨Nat.le_refl _, h.exact, .refl _ _, .refl _ _, List.suffix_refl _, h.balanced.files,
    h.balanced.directories, h.balanced.spaces, h.balanced.vnodes⟩

theorem released (h : Booked past n 0 k) (h' : Booked k.shared n 0 k') : k.Released k' := by
  obtain ⟨entries, hentries⟩ := h'.balanced.ledger_since
  refine ⟨entries, hentries.symm, fun resource => ?_⟩
  have hfiles : (k.openFilesOn resource).length +
        (k'.openFilesOn resource).countP (· ∉ k.openFiles) =
      (k'.openFilesOn resource).length + (k.openFilesOn resource).countP (· ∉ k'.openFiles) :=
    h'.balanced.files_since.length_add_countP (fun v => resource = v.resource)
      (List.nodup_dedup _) (List.nodup_dedup _) (fun id => (h.mem_openFiles_iff id).1)
      fun id => (h'.mem_openFiles_iff id).1
  have hdirectories : (k.currentDirectoriesOn resource).length +
        (k'.currentDirectoriesOn resource).countP (· ∉ k.currentDirectories) =
      (k'.currentDirectoriesOn resource).length +
        (k.currentDirectoriesOn resource).countP (· ∉ k'.currentDirectories) :=
    h'.balanced.directories_since.length_add_countP (fun v => resource = v.resource)
      (List.nodup_dedup _) (List.nodup_dedup _) (fun id => (h.mem_currentDirectories_iff id).1)
      fun id => (h'.mem_currentDirectories_iff id).1
  have hold := h.accounted.vnodes resource
  have hnew := h'.accounted.vnodes resource
  rw [show k'.ledger = entries ++ k.ledger from hentries.symm, List.count_append,
    List.count_append] at hnew
  unfold vnodesBeyond
  omega

end Booked

end Kernel

/-! ### Steps and runs -/

section Steps

variable {past : Shared (W × Ledger)} {n : Nat}

theorem Operation.booked {op : Operation} {k : Kernel (W × Ledger)}
    (h : k.Booked past k.records.size 0) (hvalid : op.Valid k) :
    (op.run S.audited k).Booked past k.records.size 0 := by
  have hensures : (op.action S.audited).Ensures k
      (fun _ k' => k'.Booked past k.records.size 0)
      fun _ k' => k'.Booked past k.records.size 0 := by
    cases op with
    | spawnInitial path args => exact Action.ensures_map.2 (Kernel.ensures_spawnInitial h)
    | exec p path args => exact Action.ensures_map.2 (Kernel.ensures_exec_booked h hvalid)
    | exit p code => exact h.exit code
    | descriptors p call =>
      exact Kernel.ensures_onDescriptors (Descriptors.keepsBooks_call call) h hvalid
    | enterDirectory p path flags =>
      rw [action, Action.ensures_bind, Kernel.ensures_onWorld]
      refine Services.ensures_openPath.mono (fun vnode w hw => ?_)
        fun _ w hw => h.congr rfl fun _ hb => hb.keepLedger hw
      refine Kernel.Booked.setDirectory (h.congr rfl fun rest hb => ?_) hvalid
      rw [add_left_comm]
      exact hb.hand hw
    | leaveDirectory p => exact h.setDirectory hvalid
    | shareDirectory p other => exact h.shareDirectory hvalid.1 hvalid.2
    | abandon p =>
      have hspace : (k.setSpace S.audited p none).Booked past k.records.size 0 :=
        Kernel.Booked.setSpace ((zero_add (0 : Holdings)).symm ▸ h) hvalid.1
      have hdirectory : ((k.setSpace S.audited p none).setDirectory S.audited p none).Booked past
          k.records.size 0 :=
        Kernel.Booked.setDirectory ((zero_add (0 : Holdings)).symm ▸ hspace) hvalid.1
      simp only [action, Action.ensures_bind, Action.ensures_modify]
      exact Kernel.ensures_onDescriptors Descriptors.keepsBooks_clear hdirectory hvalid.1
  exact hensures.result rfl

/-- However a step ends, the books stay right. -/
theorem Step.booked {s s' : System (W × Ledger)} {l : Label}
    (h : s.kernel.Booked past s.kernel.records.size 0) (hstep : Step S.audited s l s') :
    s'.kernel.Booked past s.kernel.records.size 0 := by
  cases hstep with
  | operate hvalid => exact Operation.booked h hvalid
  | forkRefused hparent hrun => exact (Kernel.ensures_beginFork h hparent).of_error hrun
  | forkBegun hparent hrun => exact (Kernel.ensures_beginFork h hparent).of_ok hrun
  | forked hf hrun => exact (Kernel.ensures_endFork h).of_ok hrun
  | forkFailed hf hrun => exact (Kernel.ensures_endFork h).of_error hrun
  | waitRefused hcaller hrun =>
    obtain ⟨-, rfl⟩ := Kernel.ensures_beginWait.of_error hrun
    exact h
  | waitBlocked hcaller hrun hdown =>
    obtain ⟨rfl, -⟩ := Kernel.ensures_beginWait.of_ok hrun
    exact h.enterWait
  | waitMet hcaller hrun hdown hend =>
    obtain ⟨rfl, -⟩ := Kernel.ensures_beginWait.of_ok hrun
    exact (Kernel.ensures_endWait (h.putSignal _)).result hend
  | waitWoken hw hdown hend => exact (Kernel.ensures_endWait (h.putSignal _)).result hend

theorem System.booked_empty (config : Config) (world : W) :
    (System.empty config (world, ([] : Ledger))).kernel.Booked { world := (world, []) } 0 0 :=
  ⟨Nat.le_refl _, nofun, .refl _ _, .refl _ _, List.suffix_refl _, Pool.heldBy_empty,
    Pool.heldBy_empty, rfl, fun _ => rfl⟩

end Steps

/-- After every step of a run all references are accounted for, and the step released exactly the
vnodes that lost their last holder. -/
theorem references_accounted {config : Config} {world : W} {labels : List Label}
    {s : System (W × Ledger)} (run : Run S.audited (System.empty config (world, [])) labels s) :
    s.kernel.Accounted ∧ ∀ l s', Step S.audited s l s' → s.kernel.Released s'.kernel := by
  have hbooked : s.kernel.Booked s.kernel.shared s.kernel.records.size 0 :=
    run.preserves (P := fun s => s.kernel.Booked s.kernel.shared s.kernel.records.size 0)
      (fun h hstep => (hstep.booked h).anchor) (System.booked_empty config world).anchor
  exact ⟨hbooked.accounted, fun l s' hstep => hbooked.released (hstep.booked hbooked)⟩

/-- The first process starts with three files on the console, file 0, and closes one of them. -/
theorem references_accounted_close :
    ∃ s, Run Ram.services.audited (System.empty { openMax := 4 } (smallWorld, []))
        [.worked, .worked] s ∧
      s.kernel.Accounted ∧ s.kernel.ledger.count (.handed 0) = 3 ∧
      s.kernel.ledger.count (.released 0) = 1 := by
  have hstart : Run Ram.services.audited (System.empty { openMax := 4 } (smallWorld, [])) [] _ :=
    .start
  have hspawned := hstart.step
    (@Step.operate _ _ _ (.spawnInitial "bin/init" ["init"]) trivial)
  have hclosed := hspawned.step
    (@Step.operate _ _ _ (.descriptors 0 (.close 0)) (show 0 < _ by decide +kernel))
  exact ⟨_, hclosed, (references_accounted hclosed).1, by decide +kernel, by decide +kernel⟩

end UnixCore
