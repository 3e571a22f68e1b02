import Mathlib.Tactic.Abel
import UnixCore.Proofs.Accounting.Descriptors
import UnixCore.Proofs.Kernel.Records

/-! The books of the kernel: the holdings of all process records together are on balance. An
operation on one record sees the holdings of the others as a rest. -/

namespace UnixCore

namespace Holdings

def ofDirectory? (directory : Option Nat) : Holdings := directory.elim 0 ofDirectory

def ofSpace? (space : Option AddressSpace) : Holdings := space.elim 0 fun _ => ofSpace

end Holdings

def Process.holdings (p : Process) : Holdings :=
  .ofFiles p.descriptors.held + .ofDirectory? p.directory + .ofSpace? p.space

namespace Kernel

variable {W α : Type} {S : Services W} {past : Shared (W × Ledger)} {hand : Holdings}
  {p : ProcessId}

def holdings (k : Kernel W) : Holdings := (k.records.toList.map Process.holdings).sum

/-- There are at least `n` records, their tables are exact, and the books are balanced while the
operation has `hand` in its hands. -/
structure Booked (past : Shared (W × Ledger)) (n : Nat) (hand : Holdings)
    (k : Kernel (W × Ledger)) : Prop where
  size : n ≤ k.records.size
  exact : ∀ p ∈ k.records, p.descriptors.Exact
  balanced : Balanced past k.shared (k.holdings + hand)

variable {k k' : Kernel (W × Ledger)} {n : Nat}

theorem mem_records (hp : p < k.records.size) : k.process p ∈ k.records := by
  rw [process, Array.getElem?_eq_getElem hp]
  exact Array.getElem_mem hp

/-- The holdings of one record beside those of the others, and how a change of the record changes
them. -/
theorem exists_holdings_eq (hp : p < k.records.size) :
    ∃ others : Holdings, k.holdings = (k.process p).holdings + others ∧
      ∀ (f : Process → Process) (k' : Kernel (W × Ledger)), k'.records = k.records.modify p f →
        k'.holdings = (f (k.process p)).holdings + others := by
  have hprocess : k.process p = k.records[p] := by
    rw [process, Array.getElem?_eq_getElem hp]
    rfl
  have hlist : k.records.toList =
      k.records.toList.take p ++ k.records[p] :: k.records.toList.drop (p + 1) := by
    rw [← Array.getElem_toList, List.getElem_cons_drop, List.take_append_drop]
  refine ⟨((k.records.toList.take p).map Process.holdings).sum +
    ((k.records.toList.drop (p + 1)).map Process.holdings).sum, ?_, fun f k' hk' => ?_⟩
  · rw [holdings, hlist, List.map_append, List.sum_append, List.map_cons, List.sum_cons, hprocess]
    rw [← hlist]
    exact add_left_comm _ _ _
  · rw [holdings, hk', Array.toList_modify,
      List.modify_eq_take_cons_drop (by rw [Array.length_toList]; exact hp), List.map_append,
      List.sum_append, List.map_cons, List.sum_cons, hprocess]
    exact add_left_comm _ _ _

namespace Booked

theorem weaken (h : Booked past n hand k) {m : Nat} (hm : m ≤ n) : Booked past m hand k :=
  ⟨Nat.le_trans hm h.size, h.exact, h.balanced⟩

theorem all_records (h : Booked past n hand k) : Booked past k.records.size hand k :=
  ⟨Nat.le_refl _, h.exact, h.balanced⟩

theorem exact_process (h : Booked past n hand k) (hp : p < n) : (k.process p).descriptors.Exact :=
  h.exact _ (mem_records (Nat.lt_of_lt_of_le hp h.size))

/-- An operation on one record sees the others as a rest, and only what it makes of the record and
of what is shared counts. -/
theorem focus (h : Booked past n hand k) (hp : p < n) :
    ∃ others, Balanced past k.shared ((k.process p).holdings + (others + hand)) ∧
      ∀ (f : Process → Process) (hand' : Holdings) (k' : Kernel (W × Ledger)),
        k'.records = k.records.modify p f → (f (k.process p)).descriptors.Exact →
        Balanced past k'.shared ((f (k.process p)).holdings + (others + hand')) →
        Booked past n hand' k' := by
  have hlt := Nat.lt_of_lt_of_le hp h.size
  obtain ⟨others, hall, hchange⟩ := exists_holdings_eq hlt
  refine ⟨others, ?_, fun f hand' k' hk' hexact hb => ⟨?_, fun q hq => ?_, ?_⟩⟩
  · rw [← add_assoc, ← hall]
    exact h.balanced
  · rw [hk', Array.size_modify]
    exact h.size
  · rw [hk'] at hq
    obtain ⟨i, hi, rfl⟩ := Array.mem_iff_getElem.1 hq
    rw [Array.getElem_modify]
    rw [Array.size_modify] at hi
    split
    case isTrue heq =>
      subst heq
      rw [process, Array.getElem?_eq_getElem hlt] at hexact
      exact hexact
    case isFalse => exact h.exact _ (Array.getElem_mem hi)
  · rwa [hchange f k' hk', add_assoc]

theorem congr (h : Booked past n hand k) {hand' : Holdings} (hrecords : k'.records = k.records)
    (hb : ∀ rest, Balanced past k.shared (rest + hand) → Balanced past k'.shared (rest + hand')) :
    Booked past n hand' k' := by
  refine ⟨by rw [hrecords]; exact h.size, by rw [hrecords]; exact h.exact, ?_⟩
  rw [show k'.holdings = k.holdings by rw [holdings, holdings, hrecords]]
  exact hb _ h.balanced

theorem report (h : Booked past n hand k) (e : Event) : Booked past n hand (k.report e) :=
  h.congr rfl fun _ hb => hb.report e

theorem modifyProcess (h : Booked past n hand k) {f : Process → Process}
    (hdescriptors : (f (k.process p)).descriptors = (k.process p).descriptors)
    (hholdings : (f (k.process p)).holdings = (k.process p).holdings) :
    Booked past n hand (modifyProcess p f k) := by
  by_cases hp : p < k.records.size
  · obtain ⟨others, hb, hput⟩ := h.all_records.focus hp
    refine (hput f hand (Kernel.modifyProcess p f k) rfl ?_ ?_).weaken h.size
    · rw [hdescriptors]
      exact h.all_records.exact_process hp
    · rw [hholdings]
      exact hb
  · exact h.congr (records_modify_of_le (Nat.le_of_not_lt hp)) fun _ hb => hb

theorem unregister (h : Booked past n hand k) (pid : Pid) : Booked past n hand (k.unregister pid) :=
  h.congr rfl fun _ hb => hb

theorem release {v : Vnode} (h : Booked past n (.ofVnode v + hand) k) :
    Booked past n hand (modifyWorld (S.audited.release v) k) := by
  refine h.congr rfl fun rest hb => ?_
  rw [add_left_comm] at hb
  exact hb.release

end Booked

/-! ### Descriptors, address spaces, directories -/

theorem ensures_onDescriptors {act : Action (Descriptors (W × Ledger)) α}
    (hact : Descriptors.KeepsBooks act) (h : Booked past n hand k) (hp : p < n) :
    (onDescriptors p act).Ensures k (fun _ k' => Booked past n hand k')
      fun _ k' => Booked past n hand k' := by
  obtain ⟨others, hb, hput⟩ := h.focus hp
  rw [Process.holdings, add_assoc, add_assoc] at hb
  rw [onDescriptors, Action.ensures_onPart]
  have hkeep := hact past ⟨(k.process p).descriptors, k.shared⟩ _ ⟨h.exact_process hp, hb⟩
  have hdone (d : Descriptors (W × Ledger))
      (hd : d.Booked past (.ofDirectory? (k.process p).directory +
        (.ofSpace? (k.process p).space + (others + hand)))) :
      Booked past n hand
        { Kernel.modifyProcess p ({ · with descriptors := d.table }) k with
          shared := d.shared } := by
    apply hput ({ · with descriptors := d.table }) hand _ rfl hd.exact
    rw [Process.holdings, add_assoc, add_assoc]
    exact hd.balanced
  exact hkeep.mono (fun _ d hd => hdone d hd) fun _ d hd => hdone d hd

theorem ensures_onSpace_booked {act : Action (AddressSpace × W × Ledger) α}
    (hact : ∀ s, act.Ensures s (fun _ t => t.2.2 = s.2.2) fun _ t => t.2.2 = s.2.2)
    (h : Booked past n hand k) (hp : p < n) :
    (onSpace p act).Ensures k (fun _ k' => Booked past n hand k')
      fun _ k' => Booked past n hand k' := by
  cases hspace : (k.process p).space with
  | none =>
    have hrun : onSpace p act k = (throw .badAddress : Action (Kernel (W × Ledger)) α) k := by
      unfold onSpace
      rw [hspace]
      rfl
    exact (Action.ensures_congr hrun).2 h
  | some space =>
    obtain ⟨others, hb, hput⟩ := h.focus hp
    rw [ensures_onSpace hspace]
    have hdone (t : AddressSpace × W × Ledger) (ht : t.2.2 = k.shared.world.2) :
        Booked past n hand (modifyWorld (fun _ => t.2)
          (Kernel.modifyProcess p ({ · with space := some t.1 }) k)) := by
      apply hput ({ · with space := some t.1 }) hand _ rfl (h.exact_process hp)
      have hsame : ({ k.process p with space := some t.1 } : Process).holdings =
          (k.process p).holdings := by
        rw [Process.holdings, Process.holdings, hspace]
        rfl
      rw [hsame]
      exact hb.keepLedger ht
    exact (hact _).mono (fun _ t ht => hdone t ht) fun _ t ht => hdone t ht

theorem balanced_destroySpace {space : Option AddressSpace} {rest : Holdings}
    (hb : Balanced past k.shared (.ofSpace? space + rest)) :
    Balanced past (destroySpace S.audited space k).shared rest := by
  cases space with
  | none => exact (zero_add rest) ▸ hb
  | some space => exact hb.destroy space

theorem balanced_dropDirectory {directory : Option Nat} {rest : Holdings}
    (hb : Balanced past k.shared (.ofDirectory? directory + rest)) :
    Balanced past (dropDirectory S.audited directory k).shared rest := by
  cases directory with
  | none => exact (zero_add rest) ▸ hb
  | some id => exact hb.dropDirectory

theorem balanced_retainDirectory {directory : Option Nat} {rest : Holdings}
    (hb : Balanced past k.shared rest) (hmem : ∀ id ∈ directory, id ∈ rest.directories) :
    Balanced past (retainDirectory directory k).shared (.ofDirectory? directory + rest) := by
  cases directory with
  | none => exact (zero_add rest).symm ▸ hb
  | some id => exact hb.retainDirectory (hmem id rfl)

namespace Booked

theorem setSpace {space : Option AddressSpace} (h : Booked past n (.ofSpace? space + hand) k)
    (hp : p < n) : Booked past n hand (setSpace S.audited p space k) := by
  obtain ⟨others, hb, hput⟩ := h.focus hp
  refine hput ({ · with space }) hand _ (records_destroySpace _ _) (h.exact_process hp)
    (balanced_destroySpace ?_)
  have hswap : (k.process p).holdings + (others + (.ofSpace? space + hand)) =
      .ofSpace? (k.process p).space +
        (({ k.process p with space } : Process).holdings + (others + hand)) := by
    simp only [Process.holdings]
    abel
  rwa [hswap] at hb

theorem setDirectory {vnode : Option Vnode}
    (h : Booked past n (vnode.elim 0 .ofVnode + hand) k) (hp : p < n) :
    Booked past n hand (setDirectory S.audited p vnode k) := by
  obtain ⟨others, hb, hput⟩ := h.focus hp
  have hswap (directory : Option Nat) :
      .ofDirectory? directory + ((k.process p).holdings + (others + hand)) =
        .ofDirectory? (k.process p).directory +
          (({ k.process p with directory } : Process).holdings + (others + hand)) := by
    simp only [Process.holdings]
    abel
  rw [add_left_comm others, add_left_comm] at hb
  cases vnode with
  | none =>
    refine hput ({ · with directory := none }) hand _ (records_dropDirectory _ _)
      (h.exact_process hp) (balanced_dropDirectory ?_)
    rw [← hswap]
    exact hb
  | some vnode =>
    refine hput ({ · with directory := some k.shared.directories.next }) hand _
      (records_dropDirectory _ _) (h.exact_process hp) (balanced_dropDirectory ?_)
    rw [← hswap]
    exact hb.insertDirectory

theorem shareDirectory {other : ProcessId} (h : Booked past n hand k) (hp : p < n)
    (hother : other < n) : Booked past n hand (shareDirectory S.audited p other k) := by
  obtain ⟨others, hb, hput⟩ := h.focus hp
  obtain ⟨rest, hb', -⟩ := h.focus hother
  -- The other process holds the directory, so it is there, so somebody in the first sum holds it.
  have hmem : ∀ id ∈ (k.process other).directory,
      id ∈ ((k.process p).holdings + (others + hand)).directories := by
    intro id hid
    refine hb.directories.isSome_get?_iff.1 (hb'.directories.isSome_get?_iff.2 ?_)
    simp [Process.holdings, Option.mem_def.1 hid, Holdings.ofDirectory?, Holdings.ofDirectory]
  have hretained := balanced_retainDirectory hb hmem
  refine hput ({ · with directory := (k.process other).directory }) hand _
    ((records_dropDirectory _ _).trans ?_) (h.exact_process hp) (balanced_dropDirectory ?_)
  · rw [Kernel.modifyProcess, records_retainDirectory]
  · have hswap : .ofDirectory? (k.process other).directory +
        ((k.process p).holdings + (others + hand)) =
        .ofDirectory? (k.process p).directory +
          (({ k.process p with directory := (k.process other).directory } : Process).holdings +
            (others + hand)) := by
      simp only [Process.holdings]
      abel
    rw [← hswap]
    exact hretained

theorem reap (h : Booked past n hand k) : Booked past n hand (reap S.audited p k) := by
  by_cases hp : p < k.records.size
  · obtain ⟨others, hb, hput⟩ := h.all_records.focus hp
    rw [Process.holdings, add_assoc, add_assoc] at hb
    obtain ⟨hexact, hheld, hshared⟩ :
        (k.cleared S.audited p).table.Exact ∧ (k.cleared S.audited p).table.held = [] ∧
          Balanced past (k.cleared S.audited p).shared _ :=
      Descriptors.Booked.clear ⟨h.all_records.exact_process hp, hb⟩
    rw [add_left_comm] at hshared
    have hempty : ((k.process p).reaped (k.cleared S.audited p).table).holdings = 0 := by
      rw [Process.holdings, Process.reaped, hheld]
      rfl
    refine (hput (Process.reaped (k.cleared S.audited p).table) hand _ (records_reap _) hexact
      ?_).weaken h.size
    rw [hempty, zero_add, reap_eq]
    exact balanced_dropDirectory (balanced_destroySpace hshared)
  · have hnone : k.process p = default := by
      rw [process, Array.getElem?_eq_none (Nat.le_of_not_lt hp)]
      rfl
    have hshared : (Kernel.reap S.audited p k).shared = k.shared := by
      unfold Kernel.reap
      rw [hnone]
      rfl
    refine h.congr ?_ fun _ hb => by rwa [hshared]
    rw [records_reap, records_modify_of_le (Nat.le_of_not_lt hp)]

end Booked

end Kernel

end UnixCore
