import UnixCore.Proofs.Accounting.Lifecycle
import UnixCore.Proofs.LifeCycle.Invariant

/-! What is left of a process that is given up before a thread of it has run: a record that nothing
leads to and that holds nothing. So whoever held something holds it still, and nobody else does. -/

namespace UnixCore.Kernel

variable {W : Type} {S : Services W}

/-- The registered ids and the process records are what they were. If there is one record more, no
id leads to it and it holds nothing. -/
structure Forgotten (k k' : Kernel (W × Ledger)) : Prop where
  config : k'.config = k.config
  capacity : k'.table.capacity = k.table.capacity
  pids : k'.table.pids = k.table.pids
  registered : ∀ pid, k'.table.get? pid = k.table.get? pid
  records : ∀ q < k.records.size, k'.process q = k.process q
  rest : ∀ q < k'.records.size, k.records.size ≤ q → q = k.records.size ∧
    (k'.process q).state = .reaped ∧ (k'.process q).Tidy ∧ ∀ pid, k'.table.get? pid ≠ some q

variable {k k' k₁ : Kernel (W × Ledger)} {pid : Pid} {parent : Option Pid}

theorem Forgotten.refl (k : Kernel (W × Ledger)) : Forgotten k k :=
  ⟨rfl, rfl, rfl, fun _ => rfl, fun _ _ => rfl, fun _ hq hge => (Nat.not_lt_of_le hge hq).elim⟩

theorem holdings_of_others (hsize : k'.records.size = k.records.size + 1)
    (hothers : ∀ q < k.records.size, k'.process q = k.process q) :
    k'.holdings = k.holdings + (k'.process k.records.size).holdings := by
  have hrecords : k'.records = k.records.push (k'.process k.records.size) := by
    apply Array.ext (by rw [hsize, Array.size_push])
    intro q hq hq'
    rw [Array.getElem_push]
    split
    case isTrue hold =>
      have hrecord := hothers q hold
      rwa [process, process, Array.getElem?_eq_getElem hq, Array.getElem?_eq_getElem hold]
        at hrecord
    case isFalse hnew =>
      obtain rfl : q = k.records.size := by omega
      rw [process, Array.getElem?_eq_getElem hq]
      rfl
  rw [holdings, hrecords, Array.toList_push, List.map_append, List.sum_append, List.map_singleton,
    List.sum_singleton, holdings]

namespace Made

theorem process_discard_of_lt {W : Type} {S : Services W} {k k₁ : Kernel W} {n : Nat}
    {q : ProcessId} (h : Made pid parent n k k₁) (hq : q < k.records.size) :
    (discard S k.records.size k₁).process q = k.process q :=
  (process_discard_ne _ (Nat.ne_of_lt hq)).trans (h.others q hq)

theorem holdings_discard {n : Nat} (h : Made pid parent n k k₁) :
    (discard S.audited k.records.size k₁).holdings = k.holdings := by
  have hempty : ((discard S.audited k.records.size k₁).process k.records.size).holdings = 0 := by
    rw [process_discard_self S.audited h.lt_size, Process.holdings, Process.reaped,
      show (k₁.cleared S.audited k.records.size).table =
        (k₁.process k.records.size).descriptors.clear from rfl, DescriptorTable.held_clear]
    rfl
  rw [holdings_of_others ((size_discard _).trans h.size) fun q hq => h.process_discard_of_lt hq,
    hempty, add_zero]

theorem forgotten_discard (h : Made pid parent 0 k k₁) (hconfig : k₁.config = k.config)
    (htable : ∀ i q, k.table.get? i = some q → q < k.records.size) :
    Forgotten k (discard S.audited k.records.size k₁) := by
  have hstillborn := h.stillborn_discard (S := S.audited)
  have htidy : ((discard S.audited k.records.size k₁).process k.records.size).Tidy := by
    rw [process_discard_self S.audited h.lt_size]
    exact Process.tidy_reaped h.threads _
  have hcapacity := (ProcessTable.size_remove_of_create h.create).2
  refine ⟨(config_reap _).trans hconfig, ?_, ProcessTable.pids_eq hstillborn.table,
    hstillborn.table, fun q hq => h.process_discard_of_lt hq, fun q hq hge => ?_⟩
  · rw [table_discard, h.pid_eq, hcapacity]
  · rw [hstillborn.size] at hq
    obtain rfl : q = k.records.size := by omega
    refine ⟨rfl, hstillborn.reaped, htidy, fun i hi => ?_⟩
    rw [hstillborn.table] at hi
    exact Nat.lt_irrefl _ (htable i _ hi)

end Made

end UnixCore.Kernel
