import UnixCore.Proofs.Kernel.Within
import UnixCore.Proofs.Process.Ids

/-! What the operations of the kernel do to the lives of the processes: the id, the parent and the
state of a record, its exit signal, and which records are registered. Most operations do nothing to
any of it. -/

namespace UnixCore

namespace Kernel

variable {W : Type} {S : Services W} {k k' k'' : Kernel W} {p a : ProcessId} {pid : Pid}
  {parent : Option Pid}

/-- Nothing happens to the life of any process. -/
structure Quiet (k k' : Kernel W) : Prop where
  table : k'.table = k.table
  size : k'.records.size = k.records.size
  life : ∀ p, (k'.process p).life = (k.process p).life

/-- There is one process more, registered under an id that was free. -/
structure Born (pid : Pid) (parent : Option Pid) (k k' : Kernel W) : Prop where
  free : k.table.get? pid = none
  table : ∀ i, k'.table.get? i = if i = pid then some k.records.size else k.table.get? i
  size : k'.records.size = k.records.size + 1
  life : ∀ p < k.records.size, (k'.process p).life = (k.process p).life
  born : (k'.process k.records.size).life = ⟨pid, parent, .running, {}⟩

/-- There is one record more, of a process that was given up. -/
structure Stillborn (k k' : Kernel W) : Prop where
  table : ∀ i, k'.table.get? i = k.table.get? i
  size : k'.records.size = k.records.size + 1
  life : ∀ p < k.records.size, (k'.process p).life = (k.process p).life
  reaped : (k'.process k.records.size).state = .reaped

/-- An id is unregistered and a process reaped. -/
structure Gone (pid : Pid) (a : ProcessId) (k k' : Kernel W) : Prop where
  table : ∀ i, k'.table.get? i = if i = pid then none else k.table.get? i
  size : k'.records.size = k.records.size
  life : ∀ p ≠ a, (k'.process p).life = (k.process p).life
  gone : (k'.process a).life = { (k.process a).life with state := .reaped }

theorem Quiet.refl (k : Kernel W) : Quiet k k := ⟨rfl, rfl, fun _ => rfl⟩

theorem Within.quiet (h : Within p k k') : Quiet k k' := by
  refine ⟨h.table, h.size, fun q => ?_⟩
  by_cases hq : q = p
  · rw [hq, h.life]
  · rw [h.others q hq]

theorem quiet_report (e : Event) : Quiet k (k.report e) := Within.quiet (p := 0) (within_report e)

/-! ### New processes -/

namespace Born

theorem pid_eq (h : Born pid parent k k') : (k'.process k.records.size).pid = pid :=
  congrArg Life.pid h.born

theorem lt_size (h : Born pid parent k k') : k.records.size < k'.records.size :=
  Nat.lt_of_lt_of_eq (Nat.lt_succ_self _) h.size.symm

end Born

theorem Made.born {n : Nat} (h : Made pid parent n k k') : Born pid parent k k' :=
  ⟨ProcessTable.get?_eq_none_of_create h.create, fun i => ProcessTable.get?_create h.create i,
    h.size, fun p hp => by rw [h.others p hp], h.life⟩

theorem Made.stillborn_discard {n : Nat} (h : Made pid parent n k k') :
    Stillborn k (discard S k.records.size k') := by
  refine ⟨fun i => ?_, (size_discard S).trans h.size, fun p hp => ?_, ?_⟩
  · rw [table_discard, h.pid_eq, ProcessTable.get?_remove_of_create h.create]
  · rw [process_discard_ne S (Nat.ne_of_lt hp), h.others p hp]
  · rw [process_discard_self S h.lt_size]
    rfl

theorem GivenUp.stillborn (h : GivenUp S k k') : Stillborn k k' := by
  obtain ⟨pid, k₁, hmade, rfl⟩ := h
  exact hmade.stillborn_discard

/-! ### Ends -/

theorem gone_reap (ha : a < k.records.size) : Gone pid a k (reap S a (k.unregister pid)) := by
  refine ⟨fun i => ?_, size_reap S, fun p hp => ?_, ?_⟩
  · rw [table_reap, unregister, ProcessTable.get?_remove]
  · rw [process_reap_ne S hp]
    rfl
  · rw [process_reap_self (k := k.unregister pid) S ha]
    rfl

namespace Gone

theorem of_quiet (h : Quiet k k') (h' : Gone pid a k' k'') : Gone pid a k k'' := by
  refine ⟨fun i => by rw [h'.table, h.table], h'.size.trans h.size, fun p hp => ?_, ?_⟩
  · rw [h'.life p hp, h.life]
  · rw [h'.gone, h.life]

theorem trans_quiet (h : Gone pid a k k') (h' : Quiet k' k'') : Gone pid a k k'' := by
  refine ⟨fun i => by rw [h'.table, h.table], h'.size.trans h.size, fun p hp => ?_, ?_⟩
  · rw [h'.life, h.life p hp]
  · rw [h'.life, h.gone]

end Gone

/-- A thread that could not be started is lost, and this is noted. -/
theorem quiet_lostThread (e : Event) :
    Quiet k (report e (modifyProcess a Process.detachThread k)) := by
  refine ⟨rfl, size_modifyProcess _, fun p => ?_⟩
  rw [process_report]
  by_cases hp : p = a
  · subst hp
    by_cases hlt : p < k.records.size
    · rw [process_modifyProcess_self _ hlt]
      rfl
    · rw [process, modifyProcess, records_modify_of_le (Nat.le_of_not_lt hlt), process]
  · rw [process_modifyProcess_ne _ hp]

theorem gone_discard (h : Quiet k k') (ha : a < k.records.size) :
    Gone (k.process a).pid a k (discard S a k') := by
  rw [discard, show (k'.process a).pid = (k.process a).pid from congrArg Life.pid (h.life a)]
  exact Gone.of_quiet h (gone_reap (Nat.lt_of_lt_of_eq ha h.size.symm))

end Kernel

end UnixCore
